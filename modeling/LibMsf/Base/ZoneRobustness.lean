import LibMsf.Base.ZoneReading
import LibMsf.Library.Threshold

/-!
When the data that were read from a zone file can be looked up in.

Reading never reports a failure, so that the data may have no local time type, and the types of the
transitions are used without a check, as are the places of their names in the abbreviations. The
look-ups themselves are safe whenever the data are.
-/

namespace LibMsf

open Cxx Records

namespace TimeZone

/-- There is a first local time type, and every transition is to one of them. -/
def Data.Indexed (data : Data) : Prop :=
  data.localtimes ≠ [] ∧ ∀ t ∈ data.transitions,
    0 ≤ t.localtimeIdx ∧ t.localtimeIdx < data.localtimes.length

section LookUp

/-- Whether the transition at a place is below the sentry. -/
def below (transitions : List Transition) (sentry : Transition) (compareGmt : Bool) (i : Nat) :
    Bool :=
  (transitions[i]?.map fun t => comp compareGmt t sentry).getD false

/-- A place that `lower_bound` may find: the transitions need not be in order. -/
def LowerBound (transitions : List Transition) (sentry : Transition) (compareGmt : Bool)
    (transI : Nat) : Prop :=
  Threshold.Boundary (below transitions sentry compareGmt) 0 transitions.length transI

theorem lowerBound_boundary (transitions : List Transition) (sentry : Transition)
    (compareGmt : Bool) :
    LowerBound transitions sentry compareGmt (lowerBound compareGmt transitions sentry) := by
  refine ⟨Nat.zero_le _, List.findIdx_le_length, ?_, ?_⟩
  · intro hlt
    have hfound := List.findIdx_getElem (w := hlt)
    rw [Bool.not_eq_true'] at hfound
    rw [below, List.getElem?_eq_getElem hlt, Option.map_some, Option.getD_some]
    exact hfound
  · intro hpos
    have hlt : lowerBound compareGmt transitions sentry - 1 < transitions.length :=
      Nat.lt_of_lt_of_le (Nat.sub_one_lt (Nat.ne_of_gt hpos)) List.findIdx_le_length
    have hbefore := List.not_of_lt_findIdx (Nat.sub_one_lt (Nat.ne_of_gt hpos))
    rw [Bool.not_eq_false'] at hbefore
    rw [below, List.getElem?_eq_getElem hlt, Option.map_some, Option.getD_some]
    exact hbefore

/-- A search for a time may stop at the transition `t`: it is at that time and the one in front of
it is not, or it is before that time and the one behind it is after it. -/
def Reached (compareGmt : Bool) (transitions : List Transition) (time : Int) (t : Transition) :
    Prop :=
  ∃ i, transitions[i]? = some t ∧
    (t.key compareGmt = time ∧
        (∀ p, 0 < i → transitions[i - 1]? = some p → p.key compareGmt < time) ∨
      t.key compareGmt < time ∧
        ∀ n, transitions[i + 1]? = some n → time < n.key compareGmt)

theorem below_eq {transitions : List Transition} {sentry t : Transition} {compareGmt : Bool}
    {i : Nat} (h : transitions[i]? = some t) : below transitions sentry compareGmt i =
      decide (t.key compareGmt < sentry.key compareGmt) := by
  rw [below, h]
  rfl

variable {data : Data} {sentry : Transition} {compareGmt : Bool}

/-- The sentry is between two transitions that exist, or behind the last one. -/
theorem transitionAt_reached {first : Transition} {transI : Nat}
    (hfirst : data.transitions.head? = some first) (hcomp : comp compareGmt sentry first = false)
    (hbound : LowerBound data.transitions sentry compareGmt transI) :
    ∃ t, transitionAt data sentry compareGmt transI = .ok t ∧
      Reached compareGmt data.transitions (sentry.key compareGmt) t := by
  have hpositive : 0 < data.transitions.length :=
    List.length_pos_iff.mpr fun hnil => by rw [hnil] at hfirst; cases hfirst
  -- The transition in front of the place that was found.
  have hbefore (hpos : 0 < transI) : ∃ t, data.transitions[transI - 1]? = some t ∧
      t.key compareGmt < sentry.key compareGmt := by
    have hlt : transI - 1 < data.transitions.length := by
      have hle := hbound.le_last
      omega
    refine ⟨_, List.getElem?_eq_getElem hlt, ?_⟩
    have hbelow := hbound.below_before hpos
    rw [below_eq (List.getElem?_eq_getElem hlt)] at hbelow
    exact of_decide_eq_true hbelow
  rw [transitionAt]
  by_cases hend : transI = data.transitions.length
  · rw [if_pos hend, ← hend]
    obtain ⟨t, ht, hless⟩ := hbefore (by omega)
    refine ⟨t, cellAt_eq ht, _, ht, .inr ⟨hless, ?_⟩⟩
    intro n hn
    rw [List.getElem?_eq_none (by omega)] at hn
    cases hn
  · have hlt : transI < data.transitions.length := Nat.lt_of_le_of_ne hbound.le_last hend
    obtain ⟨found, hfound⟩ : ∃ found, data.transitions[transI]? = some found :=
      ⟨_, List.getElem?_eq_getElem hlt⟩
    have hnot := hbound.not_below hlt
    rw [below_eq hfound, decide_eq_false_iff_not, Int.not_lt] at hnot
    rw [if_neg hend, cellAt_eq hfound, ok_bind]
    by_cases hequal : equal compareGmt sentry found = true
    · rw [if_pos hequal, pure_eq_ok]
      refine ⟨found, rfl, transI, hfound, .inl ⟨(of_decide_eq_true hequal).symm, ?_⟩⟩
      intro p hpos hp
      obtain ⟨t, ht, hless⟩ := hbefore hpos
      cases hp.symm.trans ht
      exact hless
    · have hne : sentry.key compareGmt ≠ found.key compareGmt :=
        fun heq => hequal (decide_eq_true heq)
      -- At the first transition neither side is below the other.
      have hpos : 0 < transI := by
        rw [Nat.pos_iff_ne_zero]
        rintro rfl
        rw [List.head?_eq_getElem?, hfound] at hfirst
        cases hfirst
        have hle := Int.not_lt.mp (of_decide_eq_false hcomp)
        omega
      obtain ⟨t, ht, hless⟩ := hbefore hpos
      rw [if_neg hequal, assertThat_of (Nat.pos_iff_ne_zero.mp hpos), ok_bind]
      refine ⟨t, cellAt_eq ht, _, ht, .inr ⟨hless, ?_⟩⟩
      intro n hn
      rw [Nat.sub_add_cancel hpos, hfound] at hn
      cases hn
      omega

/-- Every such transition is found from some place. -/
theorem exists_transitionAt (sentry : Transition) {t : Transition}
    (h : Reached compareGmt data.transitions (sentry.key compareGmt) t) :
    ∃ transI, LowerBound data.transitions sentry compareGmt transI ∧
      transitionAt data sentry compareGmt transI = .ok t := by
  obtain ⟨i, hi, ⟨hat, hbefore⟩ | ⟨hless, hafter⟩⟩ := h
  · have hlt := (List.getElem?_eq_some_iff.mp hi).1
    refine ⟨i, ⟨Nat.zero_le i, hlt.le, fun _ => ?_, fun hpos => ?_⟩, ?_⟩
    · rw [below_eq hi, hat, decide_eq_false_iff_not]
      exact Int.lt_irrefl _
    · obtain ⟨p, hp⟩ : ∃ p, data.transitions[i - 1]? = some p :=
        ⟨_, List.getElem?_eq_getElem (by omega)⟩
      rw [below_eq hp]
      exact decide_eq_true (hbefore p hpos hp)
    · have hequal : equal compareGmt sentry t = true := decide_eq_true hat.symm
      rw [transitionAt, if_neg (Nat.ne_of_lt hlt), cellAt_eq hi, ok_bind, if_pos hequal, pure_eq_ok]
  · have hlt := (List.getElem?_eq_some_iff.mp hi).1
    refine ⟨i + 1, ⟨Nat.zero_le _, hlt, fun hnext => ?_, fun _ => ?_⟩, ?_⟩
    · have hn := List.getElem?_eq_getElem hnext
      have hlater := hafter _ hn
      rw [below_eq hn, decide_eq_false_iff_not]
      omega
    · rw [Nat.add_sub_cancel, below_eq hi]
      exact decide_eq_true hless
    · rw [transitionAt, Nat.add_sub_cancel]
      by_cases hend : i + 1 = data.transitions.length
      · rw [if_pos hend, ← hend, Nat.add_sub_cancel]
        exact cellAt_eq hi
      · obtain ⟨n, hn⟩ : ∃ n, data.transitions[i + 1]? = some n :=
          ⟨_, List.getElem?_eq_getElem (by omega)⟩
        have hequal : ¬equal compareGmt sentry n = true := by
          have hlater := hafter n hn
          rw [equal, decide_eq_true_eq]
          omega
        rw [if_neg hend, cellAt_eq hn, ok_bind, if_neg hequal,
          assertThat_of (Nat.succ_ne_zero i), ok_bind, cellAt_eq hi]

/-- The index of a type that may be found for a second: that of the first type before all
transitions, and that of a transition at which a search may stop. -/
def Data.InForce (data : Data) (seconds idx : Int) : Prop :=
  (∀ t, data.transitions.head? = some t → seconds < t.gmttime) ∧ idx = 0 ∨
    (∀ t, data.transitions.head? = some t → t.gmttime ≤ seconds) ∧
      ∃ t, Reached true data.transitions seconds t ∧ t.localtimeIdx = idx

theorem localtimeFrom_first {seconds : Int} {transI : Nat}
    (h : ∀ t, data.transitions.head? = some t → seconds < t.gmttime) :
    localtimeFrom data ⟨seconds, 0, 0⟩ true transI = data.localtimeAt 0 := by
  rw [localtimeFrom]
  cases hfirst : data.transitions.head? with
  | none => rfl
  | some first => exact if_pos (decide_eq_true (h first hfirst))

theorem localtimeFrom_later {first : Transition} {seconds : Int} {transI : Nat}
    (hfirst : data.transitions.head? = some first) (h : first.gmttime ≤ seconds) :
    localtimeFrom data ⟨seconds, 0, 0⟩ true transI =
      (transitionAt data ⟨seconds, 0, 0⟩ true transI >>= fun t =>
        data.localtimeAt t.localtimeIdx) := by
  have hcomp : ¬comp true ⟨seconds, 0, 0⟩ first = true := by
    simp [comp, Transition.key, h]
  simp only [localtimeFrom, hfirst, if_neg hcomp]

theorem localtimeFrom_inForce {seconds : Int} {transI : Nat}
    (hbound : LowerBound data.transitions ⟨seconds, 0, 0⟩ true transI) :
    ∃ idx, data.InForce seconds idx ∧
      localtimeFrom data ⟨seconds, 0, 0⟩ true transI = data.localtimeAt idx := by
  by_cases hearly : ∀ t, data.transitions.head? = some t → seconds < t.gmttime
  · exact ⟨0, .inl ⟨hearly, rfl⟩, localtimeFrom_first hearly⟩
  · obtain ⟨first, hfirst, hle⟩ : ∃ first, data.transitions.head? = some first ∧
        first.gmttime ≤ seconds := by
      simpa only [not_forall, exists_prop, Int.not_lt] using hearly
    have hcomp : comp true ⟨seconds, 0, 0⟩ first = false := decide_eq_false (Int.not_lt.mpr hle)
    obtain ⟨t, ht, hreached⟩ := transitionAt_reached hfirst hcomp hbound
    refine ⟨t.localtimeIdx, .inr ⟨?_, t, hreached, rfl⟩, ?_⟩
    · intro t' ht'
      cases hfirst.symm.trans ht'
      exact hle
    · rw [localtimeFrom_later hfirst hle, ht, ok_bind]

theorem Data.InForce.exists_place {seconds idx : Int} (h : data.InForce seconds idx) :
    ∃ transI, LowerBound data.transitions ⟨seconds, 0, 0⟩ true transI ∧
      localtimeFrom data ⟨seconds, 0, 0⟩ true transI = data.localtimeAt idx := by
  rcases h with ⟨hearly, rfl⟩ | ⟨hlate, t, hreached, rfl⟩
  · exact ⟨_, lowerBound_boundary _ _ _, localtimeFrom_first hearly⟩
  · obtain ⟨transI, hbound, ht⟩ := exists_transitionAt ⟨seconds, 0, 0⟩ hreached
    obtain ⟨i, hi, -⟩ := hreached
    cases hfirst : data.transitions.head? with
    | none =>
        rw [List.head?_eq_none_iff.mp hfirst, List.getElem?_nil] at hi
        cases hi
    | some first =>
        refine ⟨transI, hbound, ?_⟩
        rw [localtimeFrom_later hfirst (hlate first hfirst), ht, ok_bind]

variable (h : data.Indexed)

include h

theorem Data.Indexed.localtimeAt_zero : ∃ loc, data.localtimeAt 0 = .ok loc := by
  cases hlocaltimes : data.localtimes with
  | nil => exact absurd hlocaltimes h.1
  | cons loc rest => exact ⟨loc, by rw [Data.localtimeAt, hlocaltimes]; rfl⟩

theorem Data.Indexed.localtimeAt_of_mem {t : Transition} (ht : t ∈ data.transitions) :
    ∃ loc, data.localtimeAt t.localtimeIdx = .ok loc := by
  obtain ⟨hnonneg, hlt⟩ := h.2 t ht
  have hlt' : t.localtimeIdx.toNat < data.localtimes.length := by omega
  refine ⟨data.localtimes.get ⟨_, hlt'⟩, ?_⟩
  rw [Data.localtimeAt, if_pos hnonneg]
  exact cellAt_eq (List.getElem?_eq_getElem hlt')

theorem Data.Indexed.localtimeFrom_ok {transI : Nat}
    (hbound : LowerBound data.transitions sentry compareGmt transI) :
    ∃ loc, localtimeFrom data sentry compareGmt transI = .ok loc := by
  rw [localtimeFrom]
  cases hfirst : data.transitions.head? with
  | none => exact h.localtimeAt_zero
  | some first =>
      dsimp only
      cases hcomp : comp compareGmt sentry first with
      | true =>
          rw [if_pos rfl]
          exact h.localtimeAt_zero
      | false =>
          obtain ⟨t, heq, i, hi, -⟩ := transitionAt_reached hfirst hcomp hbound
          rw [if_neg Bool.false_ne_true, heq, ok_bind]
          exact h.localtimeAt_of_mem (List.mem_of_getElem? hi)

end LookUp

/-- Every type that can be found for a second has a place in the abbreviations. -/
def Data.Named (data : Data) : Prop :=
  ∀ seconds idx loc, data.InForce seconds idx → data.localtimeAt idx = .ok loc → data.Names loc

/-- The data can be looked up in at every time, wherever `lower_bound` looks. -/
structure Data.Safe (data : Data) : Prop where
  indexed : data.Indexed
  find : ∀ sentry compareGmt transI, LowerBound data.transitions sentry compareGmt transI →
    ∃ loc, localtimeFrom data sentry compareGmt transI = .ok loc
  toLocalFrom : ∀ ctime seconds transI,
    LowerBound data.transitions ⟨seconds, 0, 0⟩ true transI →
      ∃ tm, localtimeFrom data ⟨seconds, 0, 0⟩ true transI >>= localTm ctime data seconds = .ok tm
  toLocal : ∀ ctime seconds, ∃ tm, toLocalTime ctime (some data) seconds = .ok tm
  fromLocal : ∀ ctime tm, ∃ t, fromLocalTime ctime (some data) tm = .ok t

theorem localTm_ok_iff {ctime : CTime} {data : Data} {seconds : Int} {loc : Localtime} :
    (∃ tm, localTm ctime data seconds loc = .ok tm) ↔
      (ctime.checksIndex = true → data.Names loc) := by
  rw [localTm, zoneName]
  by_cases hbad : ctime.checksIndex = true ∧ ¬data.Names loc
  · rw [if_pos hbad]
    refine iff_of_false ?_ fun hnames => hbad.2 (hnames hbad.1)
    rintro ⟨tm, htm⟩
    cases htm
  · rw [if_neg hbad]
    exact iff_of_true ⟨_, rfl⟩ fun hchecks => not_not.mp fun hnot => hbad ⟨hchecks, hnot⟩

theorem Data.Indexed.safe {data : Data} (h : data.Indexed) (hnamed : data.Named) : data.Safe := by
  have hfrom (ctime : CTime) (seconds : Int) (transI : Nat)
      (hbound : LowerBound data.transitions ⟨seconds, 0, 0⟩ true transI) :
      ∃ tm, localtimeFrom data ⟨seconds, 0, 0⟩ true transI >>= localTm ctime data seconds =
        .ok tm := by
    obtain ⟨idx, hforce, hidx⟩ := localtimeFrom_inForce hbound
    obtain ⟨loc, hloc⟩ := h.localtimeFrom_ok hbound
    rw [hloc, ok_bind]
    exact localTm_ok_iff.mpr fun _ => hnamed seconds idx loc hforce (hidx.symm.trans hloc)
  have hto (ctime : CTime) (seconds : Int) :
      ∃ tm, toLocalTime ctime (some data) seconds = .ok tm :=
    hfrom ctime seconds _ (lowerBound_boundary data.transitions ⟨seconds, 0, 0⟩ true)
  refine ⟨h, fun _ _ _ hbound => h.localtimeFrom_ok hbound, hfrom, hto, ?_⟩
  intro ctime tm
  obtain ⟨loc, hloc⟩ : ∃ loc, findLocaltime data ⟨0, ctime.timegm tm, 0⟩ false = .ok loc :=
    h.localtimeFrom_ok (lowerBound_boundary data.transitions _ _)
  obtain ⟨tryTm, htry⟩ := hto ctime (ctime.timegm tm - loc.gmtOffset)
  simp only [fromLocalTime, hloc, ok_bind, htry, pure_eq_ok]
  split
  · split
    · exact ⟨_, rfl⟩
    · exact ⟨_, rfl⟩
  · exact ⟨_, rfl⟩

theorem Data.safe_iff {data : Data} : data.Safe ↔ data.Indexed ∧ data.Named := by
  refine ⟨fun hsafe => ⟨hsafe.indexed, ?_⟩, fun h => h.1.safe h.2⟩
  intro seconds idx loc hforce hloc
  obtain ⟨transI, hbound, hfrom⟩ := hforce.exists_place
  have hshown := hsafe.toLocalFrom ⟨fun _ => Tm.zero, fun _ => 0, true⟩ seconds transI hbound
  rw [hfrom, hloc, ok_bind, localTm_ok_iff] at hshown
  exact hshown rfl

section Files

variable {file : Bytes}

theorem timeZone_fault {zonefile : Option Bytes} {fault : Fault}
    (h : readTimeZoneFile zonefile .empty = .error fault) :
    ¬∃ data, timeZone zonefile = .ok data ∧ ∀ d, data = some d → d.Safe := by
  rw [timeZone, h]
  rintro ⟨data, hdata, -⟩
  cases hdata

theorem timeZone_of_iff {zonefile : Option Bytes} {data : Data}
    (h : readTimeZoneFile zonefile .empty = .ok (true, data)) :
    (∃ data, timeZone zonefile = .ok data ∧ ∀ d, data = some d → d.Safe) ↔
      data.Indexed ∧ data.Named := by
  rw [timeZone, h, ← Data.safe_iff]
  constructor
  · rintro ⟨data', hdata, hsafe⟩
    cases hdata
    exact hsafe data rfl
  · intro hsafe
    refine ⟨some data, rfl, ?_⟩
    intro d hd
    cases hd
    exact hsafe

theorem not_indexed_empty : ¬Data.empty.Indexed :=
  fun h => h.1 rfl

instance (file : Bytes) : Decidable (HasTypes file) := inferInstanceAs (Decidable (_ ≤ _))

/-- What is left in the data of a file with all transitions: with the local time types also the
transitions and, unless the file ends within them, the abbreviations. -/
def dataOf (file : Bytes) : Data :=
  if HasTypes file then
    ⟨List.zipWith (transitionOf (localtimesOf file)) (timesOf file) (indicesOf file),
      localtimesOf file,
      if (countsOf file).charcnt.toNat ≤ (abbreviationStart file).length then
        (abbreviationStart file).take (countsOf file).charcnt.toNat
      else []⟩
  else ⟨[], records 6 localtimeOf ((typesStart file).length / 6) (typesStart file), []⟩

theorem records_ne_nil_iff {α : Type} {f : Bytes → α} {n : Nat} {s : Bytes} :
    records 6 f n s ≠ [] ↔ 0 < n := by
  rw [← List.length_pos_iff, length_records]

/-- Transitions to local time types that exist. -/
theorem indexed_zipWith {localtimes : List Localtime} (hne : localtimes ≠ []) {times : List Int}
    {indices : List UInt8} (h : ∀ l ∈ indices, l.toNat < localtimes.length)
    (abbreviation : Bytes) :
    (⟨List.zipWith (transitionOf localtimes) times indices, localtimes, abbreviation⟩ :
      Data).Indexed := by
  refine ⟨hne, ?_⟩
  intro t ht
  obtain ⟨i, hi, rfl⟩ := List.mem_iff_getElem.mp ht
  rw [List.getElem_zipWith]
  exact ⟨Int.natCast_nonneg _, Int.ofNat_lt.mpr (h _ (List.getElem_mem _))⟩

theorem timeZone_hasTypes_iff (h : HasTransitions file) (htypes : HasTypes file) :
    (∃ data, timeZone (some file) = .ok data ∧ ∀ d, data = some d → d.Safe) ↔
      1 ≤ (countsOf file).typecnt ∧
        (∀ l ∈ indicesOf file, (l.toNat : Int) < (countsOf file).typecnt) ∧
        0 ≤ (countsOf file).charcnt ∧ (dataOf file).Named := by
  by_cases hidx : ∀ l ∈ indicesOf file, l.toNat < (countsOf file).typecnt.toNat
  · by_cases hchar : 0 ≤ (countsOf file).charcnt
    · rw [timeZone_of_iff (readTimeZoneFile_whole h htypes hidx hchar), dataOf, if_pos htypes]
      have hcount := length_localtimesOf file
      constructor
      · rintro ⟨⟨hne, -⟩, hnamed⟩
        dsimp only at hne
        rw [← List.length_pos_iff, hcount] at hne
        exact ⟨by omega, fun l hl => by have := hidx l hl; omega, hchar, hnamed⟩
      · rintro ⟨htypecnt, -, -, hnamed⟩
        rw [← hcount] at hidx
        refine ⟨indexed_zipWith ?_ hidx _, hnamed⟩
        rw [← List.length_pos_iff, hcount]
        omega
    · exact iff_of_false
        (timeZone_fault (readTimeZoneFile_badCharcnt h htypes hidx (Int.not_le.mp hchar)))
        fun hall => hchar hall.2.2.1
  · have hbad : ∃ l ∈ indicesOf file, (countsOf file).typecnt.toNat ≤ l.toNat := by
      simpa only [not_forall, not_lt, exists_prop] using hidx
    refine iff_of_false (timeZone_fault (readTimeZoneFile_badIndex h htypes hbad)) ?_
    rintro ⟨-, hall, -⟩
    obtain ⟨l, hl, hle⟩ := hbad
    have := hall l hl
    omega

theorem timeZone_cut_iff (h : HasTransitions file) (htypes : ¬HasTypes file) :
    (∃ data, timeZone (some file) = .ok data ∧ ∀ d, data = some d → d.Safe) ↔
      6 ≤ (typesStart file).length ∧ (dataOf file).Named := by
  rw [timeZone_of_iff (readTimeZoneFile_cut h htypes), dataOf, if_neg htypes]
  refine and_congr_left fun _ => ?_
  constructor
  · intro hindexed
    have hpos := records_ne_nil_iff.mp hindexed.1
    omega
  · intro hlength
    refine ⟨records_ne_nil_iff.mpr (by omega), ?_⟩
    exact fun t ht => absurd ht List.not_mem_nil

end Files

/-- The data that are read from a file can be looked up in exactly when the file has the magic
characters and all transitions, at least one local time type and, if it has all of them, no
transition to one that does not exist and no negative number of characters, and when no type that
can be found for a second points behind the abbreviations. -/
theorem timeZone_safe_iff (zonefile : Option Bytes) :
    (∃ data, timeZone zonefile = .ok data ∧ ∀ d, data = some d → d.Safe) ↔
      ∃ file, zonefile = some file ∧ HasTransitions file ∧ 1 ≤ (countsOf file).typecnt ∧
        6 ≤ (typesStart file).length ∧
        (HasTypes file → (∀ l ∈ indicesOf file, (l.toNat : Int) < (countsOf file).typecnt) ∧
          0 ≤ (countsOf file).charcnt) ∧
        (dataOf file).Named := by
  cases zonefile with
  | none =>
      have hread : readTimeZoneFile none .empty = .ok (true, .empty) := rfl
      rw [timeZone_of_iff hread]
      refine iff_of_false (fun hall => not_indexed_empty hall.1) ?_
      rintro ⟨file, hfile, -⟩
      cases hfile
  | some file =>
      simp only [Option.some.injEq, exists_eq_left']
      by_cases h : HasTransitions file
      · by_cases htypes : HasTypes file
        · rw [timeZone_hasTypes_iff h htypes]
          have hlength : (countsOf file).typecnt.toNat * 6 ≤ (typesStart file).length := htypes
          constructor
          · rintro ⟨htypecnt, hidx, hchar, hnamed⟩
            exact ⟨h, htypecnt, by omega, fun _ => ⟨hidx, hchar⟩, hnamed⟩
          · rintro ⟨-, htypecnt, -, hall, hnamed⟩
            exact ⟨htypecnt, (hall htypes).1, (hall htypes).2, hnamed⟩
        · rw [timeZone_cut_iff h htypes]
          have hlength : (typesStart file).length < (countsOf file).typecnt.toNat * 6 :=
            Nat.not_le.mp htypes
          constructor
          · exact fun hall => ⟨h, by omega, hall.1, fun hhas => absurd hhas htypes, hall.2⟩
          · exact fun hall => ⟨hall.2.2.1, hall.2.2.2.2⟩
      · rw [timeZone_of_iff (readTimeZoneFile_noTransitions h)]
        exact iff_of_false (fun hall => not_indexed_empty hall.1) fun hall => h hall.1

/-- A file with one transition to a local time type that it does not have, numbers being
little-endian. -/
def strayIndex : Bytes :=
  ascii "TZif".toList ++ List.replicate 28 0 ++ [1, 0, 0, 0, 1, 0, 0, 0, 0, 0, 0, 0] ++
    [0, 0, 0, 0] ++ [5] ++ [0, 0, 0, 0, 0, 0]

/-- A file without transitions or abbreviations, whose only type points far into them. -/
def strayName : Bytes :=
  ascii "TZif".toList ++ List.replicate 28 0 ++ [0, 0, 0, 0, 1, 0, 0, 0, 0, 0, 0, 0] ++
    [0, 0, 0, 0, 0, 200]

/-- A file that is missing leaves nothing to look up, and neither the index of a type nor that of
its name is checked. -/
theorem missing_and_stray :
    timeZone none = .ok (some .empty) ∧
      findLocaltime Data.empty ⟨0, 0, 0⟩ true = .error .outOfBounds ∧
      timeZone (some strayIndex) = .error .outOfBounds ∧
      timeZone (some strayName) = .ok (some ⟨[], [⟨0, false, 200⟩], []⟩) ∧
      toLocalTime ⟨fun _ => Tm.zero, fun _ => 0, true⟩ (some ⟨[], [⟨0, false, 200⟩], []⟩) 0 =
        .error .outOfBounds := by
  decide +kernel

end TimeZone

end LibMsf
