import Pgprtdbg.Decode.Hazards

set_option autoImplicit false

namespace Pgprtdbg

open Walk MachineInt

theorem unharmed_ended {outcome : Walk.Outcome Effect Halt Unit}
    (unharmed : Unharmed .outside (parsed outcome)) : Ended outcome.value := by
  have fine := ((parsed_unharmed outcome).mp unharmed).2
  cases here : outcome.value with
  | ok value => trivial
  | error stop =>
      have survived := fine stop here
      cases stop with
      | halted reason => trivial
      | outside offset => exact absurd rfl survived
      | spent => exact absurd rfl survived

theorem unharmed_local {parser : Parser Unit} (fine : Local parser) (xs ys : List UInt8)
    (unharmed : Unharmed .outside (parsed (parser xs 0))) :
    Unharmed .outside (parsed (parser (xs ++ ys) 0)) := by
  rwa [fine xs ys 0 (unharmed_ended unharmed)]

theorem fe_p_returns (length : Int) (xs : List UInt8) (room : sizeT (length - 4) ≤ (xs.drop 5).length) :
    (fe_p length xs 0).value = .ok () := by
  change (andThen (Walk.read (sizeT (length - 4))) (fun _ => pure ()) xs 5 :
    Walk.Outcome Effect Halt Unit).value = _
  simp only [andThen, Walk.read, room, if_true]
  rfl

theorem unharmed_fe_p (length : Int) (xs : List UInt8) :
    Unharmed .outside (parsed (fe_p length xs 0)) ↔
      sizeT (length - 4) ≤ (xs.drop 5).length ∧ sizeT (length - 4) ≤ dumpCapacity := by
  have dump := touchesOther_logMem (xs.drop 5) (sizeT (length - 4))
  rw [parsed_unharmed, fe_p_log]
  simp only [List.mem_cons, List.not_mem_nil, or_false, forall_eq_or_imp, forall_eq]
  constructor
  · rintro ⟨⟨_, survived⟩, _⟩
    exact dump.mp (Bool.eq_false_iff.mpr survived)
  · intro room
    refine ⟨⟨fun line => Bool.noConfusion line, Bool.eq_false_iff.mp (dump.mpr room)⟩, ?_⟩
    rw [fe_p_returns length xs room.1]
    intro stop stopped
    cases stopped

theorem clientSwitch_grows (kind : Int8) (length : Int) (xs ys : List UInt8)
    (unharmed : Unharmed .outside (parsed (clientSwitch kind length xs 0))) :
    Unharmed .outside (parsed (clientSwitch kind length (xs ++ ys) 0)) := by
  by_cases password : kind = 112
  · subst password
    change Unharmed .outside (parsed (fe_p length xs 0)) at unharmed
    change Unharmed .outside (parsed (fe_p length (xs ++ ys) 0))
    rw [unharmed_fe_p] at unharmed ⊢
    refine ⟨unharmed.1.trans ?_, unharmed.2⟩
    rw [List.length_drop, List.length_drop, List.length_append]
    omega
  · exact unharmed_local (built_clientSwitch kind length password).isLocal xs ys unharmed

end Pgprtdbg
