import LibMsf.Base.FullTransfer

/-!
The positional transfers of several buffers leave the file position where it was.

`preadv` and `pwritev` save the position, move it and put it back, in every call of the loop; and
they put `errno` back to what the transfer left there. So each call keeps the position, and a turn
that ends the loop with a failure ends it right behind the call that failed.
-/

namespace LibMsf

/-- What holds between two turns of a transfer from `d` on. -/
structure Undisturbed (d : Device) (s : VFullState Int) : Prop where
  position : s.device.position = d.position
  calls : d.calls <+: s.device.calls
  total : 0 ≤ s.totalBytes

/-- What a transfer from `d` on leaves: a failure is that of the last call, and `errno` is
its own. -/
structure Restored (d : Device) (ret : Int) (d' : Device) : Prop where
  position : d'.position = d.position
  errno : ret = -1 →
    ∃ calls e, d'.calls = d.calls ++ calls ++ [.failed e] ∧ e ≠ EINTR ∧ d'.errno = e

namespace Device

theorem wrapPositional_position (f : Device → List Nat → Unit → Int × Device) (d : Device)
    (offered : List Nat) (offset : Int) :
    (wrapPositional f d offered offset).2.position = d.position := rfl

end Device

theorem Undisturbed.turn {f : Device → List Nat → Int → Int × Device}
    (hf : Lawful f fun _ offset => offset)
    (hposition : ∀ d offered offset, (f d offered offset).2.position = d.position)
    {d : Device} {s : VFullState Int} (h : Undisturbed d s) :
    ∃ turn, vfullTurn f s = .ok turn ∧
      turn.elim (Undisturbed d) fun out => Restored d out.1 out.2 := by
  obtain ⟨r, d₁, hturn, hplace, hanswer⟩ : ∃ r d₁, vfullTurn f s = s.resume r d₁ ∧
      d₁.position = s.device.position ∧
      Answered (fun _ offset => offset) s.device (addresses (s.iov.take kIovMax)) s.offset r d₁ :=
    ⟨_, _, rfl, hposition _ _ _, hf _ _ _⟩
  rw [hturn]
  have hkept : d₁.position = d.position := hplace.trans h.position
  have htotal := h.total
  cases hanswer with
  | @failed e returned scripted results calls errno moved place =>
      have hcalls : d.calls <+: d₁.calls := by
        rw [calls]
        exact h.calls.trans (List.prefix_append _ _)
      simp only [VFullState.resume, returned, if_true, errno]
      by_cases hint : e = EINTR
      · rw [if_pos hint]
        by_cases hiov : s.iov = []
        · rw [if_neg (not_not.mpr hiov)]
          exact ⟨_, rfl, hkept, fun hret => by omega⟩
        · rw [if_pos hiov]
          exact ⟨_, rfl, hkept, hcalls, htotal⟩
      · rw [if_neg hint]
        obtain ⟨before, hbefore⟩ := h.calls
        exact ⟨_, rfl, hkept, fun _ => ⟨before, e, by rw [calls, hbefore], hint, errno⟩⟩
  | @count n returned bound _ results calls moved place =>
      have hcalls : d.calls <+: d₁.calls := by
        rw [calls]
        exact h.calls.trans (List.prefix_append _ _)
      simp only [VFullState.resume, returned, if_neg (show ¬ (n : Int) = -1 by omega)]
      split
      · exact ⟨_, rfl, hkept, fun hret => by omega⟩
      · split
        · exact ⟨_, rfl, hkept, hcalls, by simp only; omega⟩
        · exact ⟨_, rfl, hkept, fun hret => by omega⟩

/-- The transfer returns unless calls are interrupted for ever, and when it returns the position
is what it was and `errno` is that of the call that failed. -/
def LeavesPosition (run : Nat → Option (Except Cxx.Fault (Int × Device))) (d : Device) : Prop :=
  (FinitelyInterrupted d → ∃ fuel r, run fuel = some r) ∧
    ∀ fuel r, run fuel = some r → ∃ ret d', r = .ok (ret, d') ∧ Restored d ret d'

theorem wrapvFull_leavesPosition {f : Device → List Nat → Int → Int × Device}
    (hf : Lawful f fun _ offset => offset)
    (hposition : ∀ d offered offset, (f d offered offset).2.position = d.position) (d : Device)
    (iov : List IoVec) (offset : Int) :
    LeavesPosition (fun fuel => wrapvFull f fuel d iov offset) d := by
  constructor
  · intro hd
    obtain ⟨_, ⟨enough, hrun⟩, -⟩ := wrapvFull_delivered hf hd iov False.elim offset
    exact ⟨enough, _, hrun enough (Nat.le_refl _)⟩
  · intro fuel r hrun
    obtain ⟨⟨ret, d'⟩, hr, hrestored⟩ := Run.loop_without_fault
      (P := Undisturbed d) (Q := fun out => Restored d out.1 out.2)
      (fun s hs => hs.turn hf hposition) ⟨rfl, List.prefix_rfl, Int.le_refl _⟩ hrun
    exact ⟨ret, d', hr, hrestored⟩

/-- Both positional transfers of several buffers leave the position alone. -/
theorem positional_leavesPosition (d : Device) (iov : List IoVec) (offset : Int) :
    LeavesPosition (fun fuel => d.preadvFull fuel iov offset) d ∧
      LeavesPosition (fun fuel => d.pwritevFull fuel iov offset) d :=
  ⟨wrapvFull_leavesPosition Device.wrapPositional_lawful
      (Device.wrapPositional_position Device.sequential) d iov offset,
    wrapvFull_leavesPosition Device.wrapPositional_lawful
      (Device.wrapPositional_position Device.sequential) d iov offset⟩

end LibMsf
