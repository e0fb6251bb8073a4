import Pgprtdbg.Decode.Calls

set_option autoImplicit false

namespace Pgprtdbg

open MachineInt

def LineOrDump (effect : Effect) : Prop := Plain effect ∨ ∃ block size, effect = .logMem block size

theorem logs_clientSwitch (kind : Int8) (length : Int) :
    Walk.LogsOnly LineOrDump (clientSwitch kind length) := by
  have line (format : String) (args : List Arg) : Walk.LogsOnly LineOrDump (logLine format args) :=
    Walk.logsOnly_emit _ (.inl (plain_logLine format args))
  by_cases password : kind = 112
  · rw [password]
    have front : Walk.LogsOnly LineOrDump header := Walk.logsOnly_andThen (by simp) fun _ => by simp
    exact Walk.logsOnly_andThen front fun _ => Walk.logsOnly_andThen (line _ _) fun _ =>
      Walk.logsOnly_andThen (by simp) fun block =>
        Walk.logsOnly_andThen (Walk.logsOnly_emit _ (.inr ⟨_, _, rfl⟩)) fun _ =>
          Walk.logsOnly_andThen (by simp) fun _ => by simp
  · exact Walk.logsOnly_mono (built_clientSwitch kind length password).logsOnly fun _ => .inl

def Quiet (effect : Effect) : Prop := ∀ block size, effect ≠ .logMem block size

theorem Plain.quiet {effect : Effect} (plain : Plain effect) : Quiet effect := by
  rcases plain with ⟨format, args, rfl⟩
  intro block size same
  cases same

theorem quiet_plain {parser : Parser Unit} (built : Walk.Built Plain IsArray parser) :
    Walk.LogsOnly Quiet parser :=
  Walk.logsOnly_mono built.logsOnly fun _ line => line.quiet

theorem quiet_fe_zero (clientFd length : Int) : Walk.LogsOnly Quiet (fe_zero clientFd length) :=
  Walk.logsOnly_mono (built_fe_zero clientFd length).logsOnly fun effect log => by
    rcases log with plain | ⟨bytes, rfl⟩
    · exact plain.quiet
    · intro block size same
      cases same

-- fe_p walks over the body only after the dump of it.
theorem fe_p_log (length : Int) (xs : List UInt8) :
    (fe_p length xs 0).log = [.logLine "FE: p" [], .logMem (xs.drop 5) (sizeT (length - 4))] := by
  let size := sizeT (length - 4)
  have silent : Walk.LogsOnly (fun _ : Effect => False)
      (Walk.andThen (Walk.read size) fun _ => pure () : Parser Unit) :=
    Walk.logsOnly_andThen (by simp) fun _ => by simp
  have last := List.eq_nil_iff_forall_not_mem.mpr (silent xs 5)
  change [Effect.logLine "FE: p" []] ++ ([Effect.logMem (xs.drop 5) size] ++
    (Walk.andThen (Walk.read size) (fun _ => pure ()) xs 5).log) = _
  rw [last]
  rfl

theorem mem_parsed (outcome : Walk.Outcome Effect Halt Unit) (event : Event) :
    event ∈ parsed outcome ↔
      (∃ effect ∈ outcome.log, event = .effect effect) ∨
        ∃ stop, outcome.value = .error stop ∧ event = .stopped stop := by
  unfold parsed
  cases outcome.value with
  | ok value => simp [eq_comm]
  | error stop => simp [eq_comm]

end Pgprtdbg
