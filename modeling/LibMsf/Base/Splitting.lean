import LibMsf.Base.StringUtils

/-!
Splitting, joining, replacing and counting agree.

The three loops look for the same text from the left to the right and go on behind each place
where they find it, so that all of them walk through the same pieces of the string. Joining that
skips tokens decides for each of them apart whether a delimiter follows.
-/

namespace LibMsf

open Cxx Occurrence

namespace StringUtils

theorem find_of_le {str : Bytes} {pos : Nat} (h : pos ≤ str.length) (substr : Bytes) :
    find str substr pos = (first substr (str.drop pos)).map (pos + ·) := by
  rw [find, if_pos h]

theorem find_append (front str substr : Bytes) :
    find (front ++ str) substr front.length = (first substr str).map (front.length + ·) := by
  rw [find_of_le (by simp), List.drop_left]

section Loops

variable {str substr : Bytes} {pieces : List Bytes}

/-- The search goes on behind the occurrence that was found. -/
theorem length_behind {k : Nat} (h : first substr str = some k) (front text : Bytes) :
    (front ++ (str.take k ++ text)).length = front.length + k + text.length := by
  have hle := (first_some h).1
  simp only [List.length_append, List.length_take]
  omega

/-- Where the string is `front ++ str` and the search starts behind `front`, one occurrence is
counted between every two pieces of `str`. -/
theorem countAllBody_returns (h : Pieces substr str pieces) (front : Bytes) (count : Nat) :
    Run.Returns (countAllBody (front ++ str) substr) (front.length, count)
      (.ok (count + pieces.tail.length)) := by
  induction h generalizing front count with
  | last hfirst =>
      apply Run.Returns.done
      simp only [countAllBody, find_append, hfirst, Option.map_none, List.tail_cons,
        List.length_nil, Nat.add_zero]
  | @cons str k pieces hfirst hrest ih =>
      have hnext := ih (front ++ (str.take k ++ substr)) (count + 1)
      rw [length_behind hfirst, List.append_assoc, ← (first_some hfirst).2] at hnext
      have hcount : count + pieces.length = count + 1 + pieces.tail.length := by
        have hpos : 0 < pieces.length := List.length_pos_iff.mpr hrest.ne_nil
        rw [List.length_tail]
        omega
      rw [List.tail_cons, hcount]
      refine .again ?_ hnext
      simp only [countAllBody, find_append, hfirst, Option.map_some]

/-- What is put in stands before the place where the search goes on, so that it is never
searched. -/
theorem replaceAllBody_returns (h : Pieces substr str pieces) (text front : Bytes)
    (result : Bool) :
    Run.Returns (replaceAllBody substr text) ⟨front ++ str, front.length, result⟩
      (.ok (front ++ text.intercalate pieces, result || decide (1 < pieces.length))) := by
  induction h generalizing front result with
  | last hfirst =>
      apply Run.Returns.done
      simp [replaceAllBody, find_append, hfirst]
  | @cons str k pieces hfirst hrest ih =>
      have hreplace : replace (front ++ str) (front.length + k) substr.length text
          = .ok (front ++ (str.take k ++ text) ++ str.drop (k + substr.length)) := by
        have hle := (first_some hfirst).1
        rw [replace, if_pos (by rw [List.length_append]; omega), List.take_length_add_append,
          Nat.add_assoc, List.drop_length_add_append, List.append_assoc front]
      have hnext := ih (front ++ (str.take k ++ text)) true
      rw [length_behind hfirst] at hnext
      obtain ⟨piece, rest, rfl⟩ := List.exists_cons_of_ne_nil hrest.ne_nil
      have hout : (front ++ (str.take k ++ text) ++ text.intercalate (piece :: rest),
            true || decide (1 < (piece :: rest).length))
          = (front ++ text.intercalate (str.take k :: piece :: rest),
            result || decide (1 < (str.take k :: piece :: rest).length)) := by
        simp [List.intercalate_cons_cons]
      rw [← hout]
      refine .again ?_ hnext
      simp only [replaceAllBody, find_append, hfirst, Option.map_some, hreplace, ok_bind,
        pure_eq_ok]

/-- A delimiter is not empty, so that it never starts at the end of the string and the loop
ends with the last piece. -/
theorem splitBody_returns (h : Pieces substr str pieces) (hsubstr : substr ≠ [])
    (front : Bytes) (tokens : List Bytes) :
    Run.Returns (splitBody (front ++ str) substr false) (front.length, tokens)
      (.ok (tokens ++ pieces)) := by
  induction h generalizing front tokens with
  | last hfirst =>
      apply Run.Returns.done
      simp [splitBody, find_append, hfirst, substrLen_of_le]
  | @cons str k pieces hfirst hrest ih =>
      have hend : ¬k = str.length := by
        have hle := (first_some hfirst).1
        have hpos : 0 < substr.length := List.length_pos_iff.mpr hsubstr
        omega
      have hnext := ih (front ++ (str.take k ++ substr)) (tokens ++ [str.take k])
      rw [length_behind hfirst, List.append_assoc, ← (first_some hfirst).2,
        List.append_assoc, List.singleton_append] at hnext
      refine .again ?_ hnext
      simp [splitBody, find_append, hfirst, substrLen_of_le, hend]

end Loops

/-- Where nothing is skipped, the tokens stand one after the other with the delimiter between
them. -/
theorem joinLoop_all (isBlankChar : UInt8 → Bool) (delimiter : Bytes) (tokens : List Bytes)
    (result : Bytes) :
    joinLoop isBlankChar delimiter false false tokens result
      = result ++ delimiter.intercalate tokens := by
  induction tokens generalizing result with
  | nil => simp [joinLoop]
  | cons token tokens ih =>
      cases tokens with
      | nil => simp [joinLoop, skips]
      | cons next tokens =>
          rw [joinLoop, ih, List.intercalate_cons_cons]
          · simp [skips]
          · simp

theorem join_all (isBlankChar : UInt8 → Bool) (tokens : List Bytes) (delimiter : Bytes) :
    join isBlankChar tokens delimiter false false = delimiter.intercalate tokens := by
  rw [join, joinLoop_all, List.nil_append]

/-- Splitting keeps every token, also the empty ones: joined with the delimiter they are the
string again, joined with another text they are the string with that text in the delimiter's
place, and there is one more of them than there are delimiters. -/
theorem split_laws (isBlankChar : UInt8 → Bool) {delimiter : Bytes} (hdelimiter : delimiter ≠ [])
    (str text : Bytes) :
    ∃ tokens result count enough, ∀ fuel, enough ≤ fuel →
      split fuel str delimiter false = some (.ok tokens) ∧
      join isBlankChar tokens delimiter false false = str ∧
      replaceAll fuel str delimiter text
        = some (.ok (join isBlankChar tokens text false false, result)) ∧
      countAll fuel str delimiter = some (.ok count) ∧ count + 1 = tokens.length := by
  obtain ⟨pieces, hpieces⟩ := exists_pieces hdelimiter str
  have hpos : 0 < pieces.length := List.length_pos_iff.mpr hpieces.ne_nil
  obtain ⟨splitTurns, hsplit⟩ := splitBody_returns hpieces hdelimiter [] []
  obtain ⟨replaceTurns, hreplace⟩ := replaceAllBody_returns hpieces text [] false
  obtain ⟨countTurns, hcount⟩ := countAllBody_returns hpieces [] 0
  refine ⟨pieces, decide (1 < pieces.length), pieces.tail.length,
    splitTurns + replaceTurns + countTurns, ?_⟩
  intro fuel hfuel
  rw [join_all, join_all]
  refine ⟨hsplit fuel (by omega), hpieces.intercalate, ?_, ?_, ?_⟩
  · simpa [replaceAll] using hreplace fuel (by omega)
  · simpa [countAll] using hcount fuel (by omega)
  · rw [List.length_tail]
    omega

/-- The delimiter overlaps itself in the string, and the text put in its place holds it. -/
theorem split_laws_overlapping :
    (ascii ['a', 'a'] ≠ []) ∧
    ∃ tokens result count enough, ∀ fuel, enough ≤ fuel →
      split fuel (ascii ['a', 'a', 'a', 'b', 'a', 'a']) (ascii ['a', 'a']) false
        = some (.ok tokens) ∧
      join (fun _ => false) tokens (ascii ['a', 'a']) false false
        = ascii ['a', 'a', 'a', 'b', 'a', 'a'] ∧
      replaceAll fuel (ascii ['a', 'a', 'a', 'b', 'a', 'a']) (ascii ['a', 'a'])
          (ascii ['a', 'a', 'a'])
        = some (.ok (join (fun _ => false) tokens (ascii ['a', 'a', 'a']) false false, result)) ∧
      countAll fuel (ascii ['a', 'a', 'a', 'b', 'a', 'a']) (ascii ['a', 'a'])
        = some (.ok count) ∧ count + 1 = tokens.length :=
  ⟨by decide, split_laws (fun _ => false) (by decide) _ _⟩

section Filtered

variable (isBlankChar : UInt8 → Bool) (delimiter : Bytes) (skipEmpty skipBlank : Bool)

/-- The tokens that are not skipped. -/
def kept (tokens : List Bytes) : List Bytes :=
  tokens.filter fun token => !skips isBlankChar skipEmpty skipBlank token

/-- The last token is skipped and another one is not. -/
def EndsSkipped (tokens : List Bytes) : Prop :=
  kept isBlankChar skipEmpty skipBlank tokens ≠ [] ∧
    ∃ last, tokens.getLast? = some last ∧ skips isBlankChar skipEmpty skipBlank last = true

variable {isBlankChar skipEmpty skipBlank}

theorem kept_cons_skipped {token : Bytes} (h : skips isBlankChar skipEmpty skipBlank token = true)
    (tokens : List Bytes) : kept isBlankChar skipEmpty skipBlank (token :: tokens) =
      kept isBlankChar skipEmpty skipBlank tokens := by
  rw [kept, List.filter_cons, h]
  rfl

theorem kept_cons {token : Bytes} (h : skips isBlankChar skipEmpty skipBlank token = false)
    (tokens : List Bytes) : kept isBlankChar skipEmpty skipBlank (token :: tokens) =
      token :: kept isBlankChar skipEmpty skipBlank tokens := by
  rw [kept, List.filter_cons, h]
  rfl

/-- Where no token of a list is kept, its last one is skipped. -/
theorem getLast?_of_kept_eq_nil {tokens : List Bytes} (hne : tokens ≠ [])
    (h : kept isBlankChar skipEmpty skipBlank tokens = []) :
    ∃ last, tokens.getLast? = some last ∧ skips isBlankChar skipEmpty skipBlank last = true := by
  refine ⟨tokens.getLast hne, List.getLast?_eq_some_getLast hne, ?_⟩
  have hlast := List.filter_eq_nil_iff.mp h (tokens.getLast hne) (List.getLast_mem hne)
  simpa using hlast

variable (isBlankChar skipEmpty skipBlank)

/-- A delimiter is written behind every token that is kept but the last of all tokens; it is left
over when that one is skipped. -/
theorem joinLoop_filtered (tokens : List Bytes) (result : Bytes) :
    ∃ left, joinLoop isBlankChar delimiter skipEmpty skipBlank tokens result =
        result ++ delimiter.intercalate (kept isBlankChar skipEmpty skipBlank tokens) ++ left ∧
      (EndsSkipped isBlankChar skipEmpty skipBlank tokens → left = delimiter) ∧
      (¬EndsSkipped isBlankChar skipEmpty skipBlank tokens → left = []) := by
  induction tokens generalizing result with
  | nil => exact ⟨[], by simp [joinLoop, kept], fun h => absurd rfl h.1, fun _ => rfl⟩
  | cons token tokens ih =>
      cases tokens with
      | nil =>
          refine ⟨[], ?_, ?_, fun _ => rfl⟩
          · cases hskips : skips isBlankChar skipEmpty skipBlank token with
            | true => simp [joinLoop, kept, hskips]
            | false => simp [joinLoop, kept, hskips]
          · rintro ⟨hkept, last, hlast, hskips⟩
            cases hlast
            exact absurd (kept_cons_skipped hskips []) hkept
      | cons next tokens =>
          have hlast : (token :: next :: tokens).getLast? = (next :: tokens).getLast? :=
            List.getLast?_cons_cons
          cases hskips : skips isBlankChar skipEmpty skipBlank token with
          | true =>
              obtain ⟨left, hloop, hleft⟩ := ih result
              rw [joinLoop, hskips, if_pos rfl, hloop, EndsSkipped, kept_cons_skipped hskips, hlast]
              · exact ⟨left, rfl, hleft⟩
              · simp
          | false =>
              obtain ⟨left, hloop, hends, hnot⟩ := ih (result ++ token ++ delimiter)
              rw [joinLoop, hskips, if_neg (by simp), hloop, EndsSkipped, kept_cons hskips, hlast]
              · cases hkept : kept isBlankChar skipEmpty skipBlank (next :: tokens) with
                | nil =>
                    have hsome := getLast?_of_kept_eq_nil (List.cons_ne_nil next tokens) hkept
                    rw [hnot (fun h => h.1 hkept)]
                    refine ⟨delimiter, by simp, fun _ => rfl, ?_⟩
                    exact fun h => absurd ⟨List.cons_ne_nil _ _, hsome⟩ h
                | cons first rest =>
                    have hiff : EndsSkipped isBlankChar skipEmpty skipBlank (next :: tokens) ↔
                        token :: first :: rest ≠ [] ∧ ∃ last,
                          (next :: tokens).getLast? = some last ∧
                            skips isBlankChar skipEmpty skipBlank last = true := by
                      rw [EndsSkipped, hkept]
                      simp
                    rw [← hiff]
                    exact ⟨left, by simp [List.intercalate_cons_cons], hends, hnot⟩
              · simp

theorem join_eq_intercalate_iff (tokens : List Bytes) :
    join isBlankChar tokens delimiter skipEmpty skipBlank =
        delimiter.intercalate (kept isBlankChar skipEmpty skipBlank tokens) ↔
      delimiter = [] ∨
        (∀ last, tokens.getLast? = some last →
          skips isBlankChar skipEmpty skipBlank last = false) ∨
        ∀ token ∈ tokens, skips isBlankChar skipEmpty skipBlank token = true := by
  obtain ⟨left, hloop, hends, hnot⟩ := joinLoop_filtered isBlankChar delimiter skipEmpty
    skipBlank tokens []
  have hall : kept isBlankChar skipEmpty skipBlank tokens = [] ↔
      ∀ token ∈ tokens, skips isBlankChar skipEmpty skipBlank token = true := by
    rw [kept, List.filter_eq_nil_iff]
    simp
  have hskipped : ¬EndsSkipped isBlankChar skipEmpty skipBlank tokens ↔
      (∀ last, tokens.getLast? = some last →
        skips isBlankChar skipEmpty skipBlank last = false) ∨
      ∀ token ∈ tokens, skips isBlankChar skipEmpty skipBlank token = true := by
    rw [EndsSkipped, not_and_or, not_not, hall, or_comm]
    simp
  rw [join, hloop, List.nil_append, List.append_right_eq_self, ← hskipped]
  constructor
  · intro hleft
    by_cases h : EndsSkipped isBlankChar skipEmpty skipBlank tokens
    · exact .inl ((hends h).symm.trans hleft)
    · exact .inr h
  · intro h
    cases h with
    | inl hdelimiter =>
        by_cases h : EndsSkipped isBlankChar skipEmpty skipBlank tokens
        · exact (hends h).trans hdelimiter
        · exact hnot h
    | inr h => exact hnot h

/-- Joining with tokens left out is joining what is left just when the delimiter is empty, which
that of the overload for a character is not, the last token is not skipped, or all of them are. -/
theorem join_filtered_iff (tokens : List Bytes) :
    (join isBlankChar tokens delimiter skipEmpty skipBlank =
        delimiter.intercalate (kept isBlankChar skipEmpty skipBlank tokens) ↔
      delimiter = [] ∨
        (∀ last, tokens.getLast? = some last →
          skips isBlankChar skipEmpty skipBlank last = false) ∨
        ∀ token ∈ tokens, skips isBlankChar skipEmpty skipBlank token = true) ∧
    ∀ ch, joinChar isBlankChar tokens ch skipEmpty skipBlank =
        [ch].intercalate (kept isBlankChar skipEmpty skipBlank tokens) ↔
      (∀ last, tokens.getLast? = some last →
        skips isBlankChar skipEmpty skipBlank last = false) ∨
      ∀ token ∈ tokens, skips isBlankChar skipEmpty skipBlank token = true := by
  refine ⟨join_eq_intercalate_iff isBlankChar delimiter skipEmpty skipBlank tokens, ?_⟩
  intro ch
  rw [joinChar, join_eq_intercalate_iff isBlankChar [ch] skipEmpty skipBlank tokens]
  exact or_iff_right (List.cons_ne_nil ch [])

end Filtered

/-- The empty token at the end is skipped, and the delimiter in front of it is not. -/
theorem join_leaves_delimiter :
    join (fun _ => false) [ascii ['a'], []] (ascii [',']) true false = ascii ['a', ','] ∧
      joinChar (fun _ => false) [ascii ['a'], []] ','.toUInt8 true false = ascii ['a', ','] ∧
      (ascii [',']).intercalate (kept (fun _ => false) true false [ascii ['a'], []]) =
        ascii ['a'] := by
  decide

end StringUtils

end LibMsf
