import LibMsf.Base.Splitting
import LibMsf.Base.Utils
import LibMsf.Library.Rewriting

/-!
Which of the loops over strings end.

An empty pattern is found wherever the search starts, so that the search does not move on.
`StringReplace` searches from the front again, also through what it has put in: it is a rewriting
of the string with one rule, and ends where such a rewriting ends.
-/

namespace LibMsf

open Cxx Occurrence

namespace StringUtils

theorem find_some {str substr : Bytes} {pos k : Nat} (h : find str substr pos = some k) :
    pos ≤ k ∧ k + substr.length ≤ str.length := by
  rw [find] at h
  split at h
  · rename_i hle
    obtain ⟨offset, hfirst, rfl⟩ := Option.map_eq_some_iff.mp h
    have hin := (first_some hfirst).1
    rw [List.length_drop] at hin
    omega
  · cases h

theorem find_nil {str : Bytes} {pos : Nat} (h : pos ≤ str.length) : find str [] pos = some pos := by
  rw [find_of_le h, first_nil]
  rfl

theorem find_zero (str substr : Bytes) : find str substr 0 = first substr str := by
  rw [find_of_le (Nat.zero_le _), List.drop_zero]
  cases first substr str with
  | none => rfl
  | some k => rw [Option.map_some, Nat.zero_add]

section CountAll

theorem countAll_ends {substr : Bytes} (h : substr ≠ []) (str : Bytes) :
    ∃ fuel r, countAll fuel str substr = some r := by
  have hpos := List.length_pos_iff.mpr h
  have hends : ∃ out, Run.Returns (countAllBody str substr) (0, 0) (.ok out) ∧ True := by
    refine Run.Returns.of_decreasing (I := fun s => s.1 ≤ str.length) (P := fun _ _ => True)
      (fun s => str.length - s.1) ?_ (Nat.zero_le _)
    intro s hs
    cases hfind : find str substr s.1 with
    | none => exact .inl ⟨s.2, by rw [countAllBody, hfind], trivial⟩
    | some k =>
        have hin := find_some hfind
        refine .inr ⟨(k + substr.length, s.2 + 1), by rw [countAllBody, hfind], hin.2, ?_,
          fun _ _ => trivial⟩
        dsimp only
        omega
  obtain ⟨out, ⟨enough, hloop⟩, -⟩ := hends
  exact ⟨enough, _, hloop enough (Nat.le_refl _)⟩

theorem countAll_nil (str : Bytes) (fuel : Nat) : countAll fuel str [] = none := by
  refine Run.loop_eq_none (P := fun s => s.1 ≤ str.length) ?_ (Nat.zero_le _) fuel
  intro s hs
  refine ⟨(s.1, s.2 + 1), ?_, hs⟩
  rw [countAllBody, find_nil hs]
  rfl

end CountAll

section ReplaceAll

theorem replaceAll_ends {substr : Bytes} (h : substr ≠ []) (str text : Bytes) :
    ∃ fuel r, replaceAll fuel str substr text = some r := by
  obtain ⟨pieces, hpieces⟩ := exists_pieces h str
  obtain ⟨enough, hloop⟩ := replaceAllBody_returns hpieces text [] false
  exact ⟨enough, _, hloop enough (Nat.le_refl _)⟩

/-- The string grows by what is put in, and the search moves on by as much. -/
theorem replaceAll_nil (str text : Bytes) (fuel : Nat) : replaceAll fuel str [] text = none := by
  refine Run.loop_eq_none (P := fun s => s.pos ≤ s.str.length) ?_ (Nat.zero_le _) fuel
  intro s hs
  have hreplace : replace s.str s.pos 0 text =
      .ok (s.str.take s.pos ++ text ++ s.str.drop (s.pos + 0)) := by
    rw [replace, if_pos hs]
  refine ⟨⟨s.str.take s.pos ++ text ++ s.str.drop (s.pos + 0), s.pos + text.length, true⟩, ?_, ?_⟩
  · simp only [replaceAllBody, find_nil hs, List.length_nil, hreplace, ok_bind, pure_eq_ok]
  · simp only [List.length_append, List.length_take, List.length_drop]
    omega

end ReplaceAll

section Split

/-- A turn of `Split` from inside the string, with the tokens that it adds left open. -/
theorem splitBody_eq {str : Bytes} {s : Nat × List Bytes} (hs : s.1 ≤ str.length)
    (delimiter : Bytes) (skipEmpty : Bool) :
    ∃ tokens, splitBody str delimiter skipEmpty s =
      if (find str delimiter s.1).getD str.length = str.length then .ok (.inr tokens)
      else .ok (.inl ((find str delimiter s.1).getD str.length + delimiter.length, tokens)) := by
  simp only [splitBody, substrLen_of_le hs, ok_bind, pure_eq_ok]
  split
  · exact ⟨_, rfl⟩
  · exact ⟨_, rfl⟩

theorem split_ends {delimiter : Bytes} (h : delimiter ≠ []) (str : Bytes) (skipEmpty : Bool) :
    ∃ fuel r, split fuel str delimiter skipEmpty = some r := by
  have hpos := List.length_pos_iff.mpr h
  have hends : ∃ out,
      Run.Returns (splitBody str delimiter skipEmpty) (0, []) (.ok out) ∧ True := by
    refine Run.Returns.of_decreasing (I := fun s => s.1 ≤ str.length) (P := fun _ _ => True)
      (fun s => str.length - s.1) ?_ (Nat.zero_le _)
    intro s hs
    obtain ⟨tokens, hbody⟩ := splitBody_eq hs delimiter skipEmpty
    cases hfind : find str delimiter s.1 with
    | none =>
        rw [hfind, Option.getD_none, if_pos rfl] at hbody
        exact .inl ⟨tokens, hbody, trivial⟩
    | some k =>
        have hin := find_some hfind
        rw [hfind, Option.getD_some, if_neg (by omega)] at hbody
        refine .inr ⟨_, hbody, hin.2, ?_, fun _ _ => trivial⟩
        dsimp only
        omega
  obtain ⟨out, ⟨enough, hloop⟩, -⟩ := hends
  exact ⟨enough, _, hloop enough (Nat.le_refl _)⟩

theorem split_empty (delimiter : Bytes) (skipEmpty : Bool) :
    ∃ fuel r, split fuel [] delimiter skipEmpty = some r := by
  have hstart : ((0, []) : Nat × List Bytes).1 ≤ ([] : Bytes).length := Nat.le_refl 0
  obtain ⟨tokens, hbody⟩ := splitBody_eq hstart delimiter skipEmpty
  have hend : (find [] delimiter 0).getD ([] : Bytes).length = ([] : Bytes).length := by
    cases hfind : find [] delimiter 0 with
    | none => rfl
    | some k =>
        have hin := (find_some hfind).2
        rw [List.length_nil] at hin ⊢
        rw [Option.getD_some]
        omega
  rw [if_pos hend] at hbody
  refine ⟨1, .ok tokens, ?_⟩
  simp only [split, Run.loop, hbody]

theorem split_nil {str : Bytes} (h : str ≠ []) (skipEmpty : Bool) (fuel : Nat) :
    split fuel str [] skipEmpty = none := by
  have hpos := List.length_pos_iff.mpr h
  refine Run.loop_eq_none (P := fun s => s.1 = 0) ?_ rfl fuel
  intro s hs
  have hle : s.1 ≤ str.length := hs ▸ Nat.zero_le _
  obtain ⟨tokens, hbody⟩ := splitBody_eq hle [] skipEmpty
  rw [find_nil hle, Option.getD_some, if_neg (by omega), List.length_nil, Nat.add_zero] at hbody
  exact ⟨_, hbody, hs⟩

end Split

end StringUtils

namespace Utils

open StringUtils

section Replace

variable {oldStr newStr str : Bytes}

theorem stringReplaceBody_found {k : Nat} (hold : oldStr ≠ []) (hne : oldStr ≠ newStr)
    (hfirst : first oldStr str = some k) :
    ∃ str', stringReplaceBody oldStr newStr str = .ok (.inl str') ∧
      Rewriting.Step oldStr newStr str str' := by
  obtain ⟨hle, hsplit⟩ := first_some hfirst
  refine ⟨str.take k ++ newStr ++ str.drop (k + oldStr.length), ?_, ?_⟩
  · rw [stringReplaceBody, if_neg (not_or.mpr ⟨hold, hne⟩), find_zero, hfirst]
    simp only [replace, if_pos (show k ≤ str.length by omega), ok_bind, pure_eq_ok]
  · have hstep := Rewriting.Step.replace (l := oldStr) (r := newStr) (str.take k)
      (str.drop (k + oldStr.length))
    rw [← hsplit] at hstep
    exact hstep

theorem stringReplace_done (h : stringReplaceBody oldStr newStr str = .ok (.inr str)) :
    ∃ fuel r, stringReplace fuel str oldStr newStr = some r :=
  ⟨1, .ok str, by simp only [stringReplace, Run.loop, h]⟩

theorem stringReplace_of_ends (h : Rewriting.Ends oldStr newStr str) :
    ∃ fuel r, stringReplace fuel str oldStr newStr = some r := by
  induction h with
  | intro str _ ih =>
      by_cases hdone : oldStr = [] ∨ oldStr = newStr
      · exact stringReplace_done (by rw [stringReplaceBody, if_pos hdone])
      · cases hfirst : first oldStr str with
        | none =>
            exact stringReplace_done (by rw [stringReplaceBody, if_neg hdone, find_zero, hfirst])
        | some k =>
            obtain ⟨hold, hne⟩ := not_or.mp hdone
            obtain ⟨str', hbody, hstep⟩ := stringReplaceBody_found hold hne hfirst
            obtain ⟨fuel, r, hrest⟩ := ih str' hstep
            refine ⟨fuel + 1, r, ?_⟩
            rw [stringReplace] at hrest ⊢
            simp only [Run.loop, hbody]
            exact hrest

theorem stringReplace_trivial (h : oldStr = [] ∨ oldStr = newStr ∨ ¬oldStr <:+: str) :
    ∃ fuel r, stringReplace fuel str oldStr newStr = some r := by
  by_cases hdone : oldStr = [] ∨ oldStr = newStr
  · exact stringReplace_done (by rw [stringReplaceBody, if_pos hdone])
  · have hnone : ¬oldStr <:+: str := (or_assoc.mpr h).resolve_left hdone
    have hfirst : first oldStr str = none := by
      by_contra hsome
      obtain ⟨k, hk⟩ := Option.ne_none_iff_exists'.mp hsome
      exact hnone ⟨_, _, (first_some hk).2.symm⟩
    exact stringReplace_done (by rw [stringReplaceBody, if_neg hdone, find_zero, hfirst])

/-- What is put in holds what is looked for, so that there is always something to replace. -/
theorem stringReplace_contained (hold : oldStr ≠ []) (hne : oldStr ≠ newStr)
    (hnew : oldStr <:+: newStr) (hstr : oldStr <:+: str) (fuel : Nat) :
    stringReplace fuel str oldStr newStr = none := by
  refine Run.loop_eq_none (P := fun s => oldStr <:+: s) ?_ hstr fuel
  intro s hs
  obtain ⟨k, hfirst⟩ := Option.ne_none_iff_exists'.mp (first_ne_none hs)
  obtain ⟨s', hbody, hstep⟩ := stringReplaceBody_found hold hne hfirst
  refine ⟨s', hbody, ?_⟩
  cases hstep with
  | replace before after => exact hnew.trans ⟨before, after, rfl⟩

end Replace

/-- What is put in is longer and does not hold what is looked for, but an occurrence can go on
from it in either direction. -/
def Entangled (oldStr newStr : Bytes) : Prop :=
  oldStr.length < newStr.length ∧ ¬oldStr <:+: newStr ∧
    (∃ t, t ≠ [] ∧ t <:+ newStr ∧ t <+: oldStr) ∧ ∃ t, t ≠ [] ∧ t <+: newStr ∧ t <:+ oldStr

theorem ends_of_not_entangled {oldStr newStr : Bytes} (hold : oldStr ≠ []) (hne : oldStr ≠ newStr)
    (hpart : ¬oldStr <:+: newStr) (h : ¬Entangled oldStr newStr) (str : Bytes) :
    Rewriting.Ends oldStr newStr str := by
  by_cases hlonger : oldStr.length < newStr.length
  · by_cases hbegins : Rewriting.NoneBegins oldStr newStr
    · exact Rewriting.ends_of_noneBegins hold hpart hbegins str
    · refine Rewriting.ends_of_noneEnds hold hpart ?_ str
      intro t ht hstart hend
      refine h ⟨hlonger, hpart, ?_, t, ht, hstart, hend⟩
      simpa [Rewriting.NoneBegins] using hbegins
  · exact Rewriting.ends_of_length_le (Nat.not_lt.mp hlonger) hne str

/-- `StringReplace` ends when there is nothing to do, and when what is put in does not hold what is
looked for and the two are not entangled. -/
theorem stringReplace_ends {str oldStr newStr : Bytes}
    (h : oldStr = [] ∨ oldStr = newStr ∨ ¬oldStr <:+: str ∨
      ¬oldStr <:+: newStr ∧ ¬Entangled oldStr newStr) :
    ∃ fuel r, stringReplace fuel str oldStr newStr = some r := by
  by_cases htrivial : oldStr = [] ∨ oldStr = newStr ∨ ¬oldStr <:+: str
  · exact stringReplace_trivial htrivial
  · simp only [not_or, not_not] at htrivial
    obtain ⟨hold, hne, hstr⟩ := htrivial
    have hpart : ¬oldStr <:+: newStr ∧ ¬Entangled oldStr newStr := by
      simpa [hold, hne, hstr] using h
    exact stringReplace_of_ends (ends_of_not_entangled hold hne hpart.1 hpart.2 str)

/-- Counting and replacing with `ReplaceAll` end just when the pattern is not empty, splitting
also when there is nothing to split. `StringReplace` ends when there is nothing to do, and when
what is put in does not hold what is looked for and the two are not entangled; outside the
entangled pairs it ends only then, and never when what is put in holds what is found. -/
theorem helpers_end_iff (str substr text delimiter oldStr newStr : Bytes) (skipEmpty : Bool) :
    ((∃ fuel r, countAll fuel str substr = some r) ↔ substr ≠ []) ∧
      ((∃ fuel r, replaceAll fuel str substr text = some r) ↔ substr ≠ []) ∧
      ((∃ fuel r, split fuel str delimiter skipEmpty = some r) ↔ delimiter ≠ [] ∨ str = []) ∧
      ((oldStr = [] ∨ oldStr = newStr ∨ ¬oldStr <:+: str ∨
          ¬oldStr <:+: newStr ∧ ¬Entangled oldStr newStr) →
        ∃ fuel r, stringReplace fuel str oldStr newStr = some r) ∧
      ((∃ fuel r, stringReplace fuel str oldStr newStr = some r) →
        oldStr = [] ∨ oldStr = newStr ∨ ¬oldStr <:+: str ∨ ¬oldStr <:+: newStr) := by
  refine ⟨⟨?_, fun h => countAll_ends h str⟩, ⟨?_, fun h => replaceAll_ends h str text⟩,
    ⟨?_, ?_⟩, stringReplace_ends, ?_⟩
  · rintro ⟨fuel, r, h⟩ rfl
    rw [countAll_nil] at h
    cases h
  · rintro ⟨fuel, r, h⟩ rfl
    rw [replaceAll_nil] at h
    cases h
  · rintro ⟨fuel, r, h⟩
    by_contra hnot
    obtain ⟨hdelimiter, hstr⟩ := not_or.mp hnot
    rw [not_not.mp hdelimiter, split_nil hstr] at h
    cases h
  · intro h
    cases h with
    | inl hdelimiter => exact split_ends hdelimiter str skipEmpty
    | inr hstr =>
        subst hstr
        exact split_empty delimiter skipEmpty
  · rintro ⟨fuel, r, h⟩
    by_contra hnot
    simp only [not_or, not_not] at hnot
    obtain ⟨hold, hne, hstr, hnew⟩ := hnot
    rw [stringReplace_contained hold hne hnew hstr] at h
    cases h

/-- An empty pattern never ends the search, nor does one that is put in again with more. -/
theorem helpers_run_on :
    (∀ fuel, countAll fuel (ascii ['a']) [] = none) ∧
      (∀ fuel, replaceAll fuel (ascii ['a']) [] (ascii ['b']) = none) ∧
      (∀ fuel, split fuel (ascii ['a']) [] false = none) ∧
      ∀ fuel, stringReplace fuel (ascii ['a']) (ascii ['a']) (ascii ['a', 'a']) = none :=
  ⟨countAll_nil _, replaceAll_nil _ _, split_nil (by decide) false,
    stringReplace_contained (by decide) (by decide) ⟨[], ascii ['a'], rfl⟩ ⟨[], [], rfl⟩⟩

section Entangled

/-- Leading ones are not part of an occurrence of 01. -/
theorem first_behind_ones (n : Nat) (s : Bytes) :
    first [48, 49] (List.replicate n 49 ++ s) = (first [48, 49] s).map (n + ·) := by
  induction n with
  | zero => simp
  | succ n ih =>
      rw [List.replicate_succ, List.cons_append, first, if_neg (by simp), ih, Option.map_map]
      congr 1
      funext k
      simp only [Function.comp_apply]
      omega

theorem stringReplaceBody_behind_ones {s : Bytes} {k : Nat} (n : Nat)
    (h : first [48, 49] s = some k) :
    stringReplaceBody [48, 49] [49, 49, 48, 48] (List.replicate n 49 ++ s) =
      .ok (.inl (List.replicate n 49 ++ (s.take k ++ [49, 49, 48, 48] ++ s.drop (k + 2)))) := by
  have hle := (first_some h).1
  have hin : n + k ≤ (List.replicate n 49 ++ s).length := by
    rw [List.length_append, List.length_replicate]
    omega
  have htake : (List.replicate n (49 : UInt8) ++ s).take (n + k) =
      List.replicate n 49 ++ s.take k := by
    simp [List.take_append]
  have hdrop : (List.replicate n (49 : UInt8) ++ s).drop (n + k + 2) = s.drop (k + 2) := by
    rw [Nat.add_assoc]
    simp [List.drop_append]
  rw [stringReplaceBody, if_neg (by decide), find_zero, first_behind_ones, h, Option.map_some]
  simp only [replace, if_pos hin, ok_bind, pure_eq_ok, List.length_cons, List.length_nil,
    Nat.zero_add, Nat.reduceAdd, htake, hdrop, List.append_assoc]

/-- Two entangled strings: 01 is no part of 1100, and still 001 becomes 1100100, which has 001 in
it again. -/
theorem entangled_runs_on :
    Entangled [48, 49] [49, 49, 48, 48] ∧
      ∀ fuel, stringReplace fuel [48, 48, 49] [48, 49] [49, 49, 48, 48] = none := by
  refine ⟨⟨by decide, by decide, ⟨[48], by decide⟩, ⟨[49], by decide⟩⟩, ?_⟩
  refine Run.loop_eq_none (P := fun s => ∃ n rest,
    s = List.replicate n 49 ++ 48 :: 48 :: 49 :: rest ∨
      s = List.replicate n 49 ++ 48 :: 49 :: 49 :: 48 :: 48 :: rest) ?_ ⟨0, [], .inl rfl⟩
  rintro s ⟨n, rest, rfl | rfl⟩
  · refine ⟨_, stringReplaceBody_behind_ones n (k := 1) (by simp [first]), n, rest, .inr ?_⟩
    simp
  · refine ⟨_, stringReplaceBody_behind_ones n (k := 0) (by simp [first]), n + 2,
      48 :: 48 :: rest, .inl ?_⟩
    simp [List.replicate_add]

end Entangled

end Utils

end LibMsf
