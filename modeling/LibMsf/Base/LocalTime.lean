import LibMsf.Base.TimeZone
import LibMsf.Library.Gregorian
import LibMsf.Library.Threshold

/-!
Local time and back, in a zone that alternates between standard and daylight saving time.

The transitions split at a time into those that have happened and those to come. Converted to
local time the same split holds, except in the hour that is about to be repeated: there the
next transition counts as done already, and the correction of one hour makes up for it.
-/

namespace LibMsf

open Cxx

namespace TimeZone

section Search

/-- The index of the type in force behind some transitions: that of the last one, and the first
type of the zone before all of them. -/
def indexAfter (before : List Transition) : Int :=
  (before.getLast?.map Transition.localtimeIdx).getD 0

variable {data : Data} {before after : List Transition} {sentry : Transition} {compareGmt : Bool}

/-- The last transition that is not behind the sentry, when the transitions are in order. -/
theorem transitionAt_lowerBound {init : List Transition} {last : Transition}
    (heq : data.transitions = init ++ [last] ++ after)
    (hsorted : (init ++ [last]).Pairwise (fun a b => a.key compareGmt < b.key compareGmt))
    (h : Threshold.Split (Transition.key compareGmt) (sentry.key compareGmt) (init ++ [last])
      after) :
    transitionAt data sentry compareGmt (lowerBound compareGmt data.transitions sentry) =
      .ok last := by
  have hcell : cellAt data.transitions init.length = .ok last := by
    rw [heq]
    exact cellAt_eq (by simp)
  have hlength : data.transitions.length = init.length + 1 + after.length := by
    simp only [heq, List.length_append, List.length_singleton]
  rw [transitionAt]
  by_cases hlast : last.key compareGmt = sentry.key compareGmt
  · have hbound : lowerBound compareGmt data.transitions sentry = init.length := by
      rw [lowerBound, heq]
      exact h.lowerBound_eq hsorted hlast
    have hequal : equal compareGmt sentry last = true := decide_eq_true hlast.symm
    rw [hbound, if_neg (by omega), hcell, ok_bind, if_pos hequal, pure_eq_ok]
  · have hbound : lowerBound compareGmt data.transitions sentry = init.length + 1 := by
      rw [lowerBound, heq]
      exact h.lowerBound_of_ne hsorted hlast
    rw [hbound]
    cases after with
    | nil =>
        rw [List.length_nil, Nat.add_zero] at hlength
        rw [if_pos hlength.symm, hlength, Nat.add_sub_cancel, hcell]
    | cons first after =>
        have hnext : cellAt data.transitions (init.length + 1) = .ok first := by
          rw [heq]
          exact cellAt_eq (by simp)
        have hequal : ¬ equal compareGmt sentry first = true := by
          simpa [equal] using (h.lt first List.mem_cons_self).ne
        rw [List.length_cons] at hlength
        rw [if_neg (by omega), hnext, ok_bind, if_neg hequal,
          assertThat_of (Nat.succ_ne_zero _), ok_bind, Nat.add_sub_cancel, hcell]

theorem findLocaltime_eq (heq : data.transitions = before ++ after)
    (hsorted : before.Pairwise (fun a b => a.key compareGmt < b.key compareGmt))
    (h : Threshold.Split (Transition.key compareGmt) (sentry.key compareGmt) before after) :
    findLocaltime data sentry compareGmt = data.localtimeAt (indexAfter before) := by
  cases before using List.reverseRecOn with
  | nil =>
      rw [findLocaltime, localtimeFrom, heq, List.nil_append]
      cases after with
      | nil => rfl
      | cons first after =>
          have hcomp : comp compareGmt sentry first = true :=
            decide_eq_true (h.lt first List.mem_cons_self)
          simp only [List.head?_cons, if_pos hcomp]
          rfl
  | append_singleton init last _ =>
      obtain ⟨first, rest, hcons⟩ : ∃ first rest, init ++ [last] = first :: rest :=
        List.exists_cons_of_ne_nil (by simp)
      have hfirst : first.key compareGmt ≤ sentry.key compareGmt :=
        h.le first (by rw [hcons]; exact List.mem_cons_self)
      have hhead : data.transitions.head? = some first := by
        rw [heq, hcons]
        rfl
      have hcomp : ¬ comp compareGmt sentry first = true := by
        simpa [comp] using hfirst
      simp only [findLocaltime, localtimeFrom, hhead, if_neg hcomp,
        transitionAt_lowerBound heq hsorted h, ok_bind, indexAfter, List.getLast?_concat,
        Option.map_some, Option.getD_some]

end Search

/-- A zone of one standard type and one type that is an hour ahead of it. The transitions
alternate between the two, starting with the one that is not the first of the zone, and are
more than an hour apart. -/
structure RegularZone (offset : Int) (data : Data) : Prop where
  localtimes : ∃ std dst : Localtime, std.gmtOffset = offset ∧ std.isDst = false ∧
    dst.gmtOffset = offset + 3600 ∧ dst.isDst = true ∧
      (data.localtimes = [std, dst] ∨ data.localtimes = [dst, std])
  apart : data.transitions.IsChain (fun a b => a.gmttime + 3600 < b.gmttime)
  indices : ∀ t ∈ data.transitions, t.localtimeIdx = 0 ∨ t.localtimeIdx = 1
  alternates : (0 :: data.transitions.map Transition.localtimeIdx).IsChain (· ≠ ·)
  localtime : ∀ t ∈ data.transitions, ∃ loc, data.localtimeAt t.localtimeIdx = .ok loc ∧
    t.localtime = t.gmttime + loc.gmtOffset

section Zone

variable {offset : Int} {data : Data} (h : RegularZone offset data)

include h

theorem RegularZone.types :
    ∃ loc0 loc1 : Localtime, data.localtimeAt 0 = .ok loc0 ∧ data.localtimeAt 1 = .ok loc1 ∧
      loc0.gmtOffset = offset + (if loc0.isDst then 3600 else 0) ∧
      loc1.gmtOffset = offset + (if loc1.isDst then 3600 else 0) ∧ loc0.isDst ≠ loc1.isDst := by
  obtain ⟨std, dst, hstd, hnot, hdst, his, horder⟩ := h.localtimes
  cases horder with
  | inl heq =>
      refine ⟨std, dst, ?_, ?_, ?_, ?_, ?_⟩
      · rw [Data.localtimeAt, heq]
        rfl
      · rw [Data.localtimeAt, heq]
        rfl
      · simp [hstd, hnot]
      · simp [hdst, his]
      · simp [hnot, his]
  | inr heq =>
      refine ⟨dst, std, ?_, ?_, ?_, ?_, ?_⟩
      · rw [Data.localtimeAt, heq]
        rfl
      · rw [Data.localtimeAt, heq]
        rfl
      · simp [hdst, his]
      · simp [hstd, hnot]
      · simp [hnot, his]

theorem RegularZone.type_at {i : Int} (hi : i = 0 ∨ i = 1) :
    ∃ loc, data.localtimeAt i = .ok loc ∧
      loc.gmtOffset = offset + if loc.isDst then 3600 else 0 := by
  obtain ⟨loc0, loc1, h0, h1, hoffset0, hoffset1, -⟩ := h.types
  cases hi with
  | inl heq => exact ⟨loc0, by rw [heq, h0], hoffset0⟩
  | inr heq => exact ⟨loc1, by rw [heq, h1], hoffset1⟩

theorem RegularZone.isDst_ne {i j : Int} {loc loc' : Localtime} (hi : i = 0 ∨ i = 1)
    (hj : j = 0 ∨ j = 1) (hne : i ≠ j) (hloc : data.localtimeAt i = .ok loc)
    (hloc' : data.localtimeAt j = .ok loc') : loc.isDst ≠ loc'.isDst := by
  obtain ⟨loc0, loc1, h0, h1, -, -, hdiffer⟩ := h.types
  obtain ⟨rfl, rfl⟩ | ⟨rfl, rfl⟩ : (i = 0 ∧ j = 1) ∨ (i = 1 ∧ j = 0) := by omega
  · rw [h0] at hloc
    rw [h1] at hloc'
    cases hloc
    cases hloc'
    exact hdiffer
  · rw [h1] at hloc
    rw [h0] at hloc'
    cases hloc
    cases hloc'
    exact hdiffer.symm

theorem RegularZone.pairwise_gmt :
    data.transitions.Pairwise (fun a b => a.gmttime + 3600 < b.gmttime) := by
  have htrans : Trans (fun a b : Transition => a.gmttime + 3600 < b.gmttime)
      (fun a b : Transition => a.gmttime + 3600 < b.gmttime)
      (fun a b : Transition => a.gmttime + 3600 < b.gmttime) :=
    ⟨fun hab hbc => by omega⟩
  exact List.isChain_iff_pairwise.mp h.apart

theorem RegularZone.localtime_bounds {t : Transition} (ht : t ∈ data.transitions) :
    t.gmttime + offset ≤ t.localtime ∧ t.localtime ≤ t.gmttime + offset + 3600 := by
  obtain ⟨loc, hloc, hlocal⟩ := h.localtime t ht
  obtain ⟨loc', hloc', hoffset⟩ := h.type_at (h.indices t ht)
  rw [hloc] at hloc'
  cases hloc'
  rw [hlocal, hoffset]
  split <;> omega

theorem RegularZone.pairwise_key (compareGmt : Bool) :
    data.transitions.Pairwise (fun a b => a.key compareGmt < b.key compareGmt) := by
  refine List.Pairwise.imp_of_mem ?_ h.pairwise_gmt
  intro a b ha hb hab
  have hlocalA := h.localtime_bounds ha
  have hlocalB := h.localtime_bounds hb
  cases compareGmt with
  | true =>
      change a.gmttime < b.gmttime
      omega
  | false =>
      change a.localtime < b.localtime
      omega

variable {before after : List Transition}

theorem RegularZone.indexAfter_cases (heq : data.transitions = before ++ after) :
    indexAfter before = 0 ∨ indexAfter before = 1 := by
  cases before using List.reverseRecOn with
  | nil => exact Or.inl rfl
  | append_singleton init last _ =>
      rw [indexAfter, List.getLast?_concat]
      exact h.indices last (by simp [heq])

theorem RegularZone.indexAfter_ne {next : Transition} {rest : List Transition}
    (heq : data.transitions = before ++ next :: rest) : indexAfter before ≠ next.localtimeIdx := by
  have hchain := h.alternates
  rw [heq, List.map_append, ← List.cons_append, List.isChain_append] at hchain
  refine hchain.2.2 _ ?_ _ rfl
  rw [List.getLast?_cons, List.getLast?_map]
  rfl

section Convert

variable {t : Int} {loc : Localtime} (heq : data.transitions = before ++ after)
  (hgmt : Threshold.Split (Transition.key true) t before after)
  (hloc : data.localtimeAt (indexAfter before) = .ok loc)

include heq hgmt hloc

theorem RegularZone.localtime_le : ∀ b ∈ before, b.localtime ≤ t + loc.gmtOffset := by
  obtain ⟨loc', hloc', hoffset⟩ := h.type_at (h.indexAfter_cases heq)
  rw [hloc] at hloc'
  cases hloc'
  intro b hb
  cases before using List.reverseRecOn with
  | nil => exact absurd hb List.not_mem_nil
  | append_singleton init last _ =>
      have hlast : last ∈ data.transitions := by simp [heq]
      have hpast : last.gmttime ≤ t := hgmt.le last (by simp)
      cases List.mem_append.mp hb with
      | inl hinit =>
          -- An earlier one is more than an hour older than the last.
          have hpairwise := h.pairwise_gmt
          rw [heq, List.append_assoc] at hpairwise
          have hbefore := (List.pairwise_append.mp hpairwise).2.2 b hinit last (by simp)
          have hbounds := h.localtime_bounds (t := b) (by simp [heq, hinit])
          split at hoffset <;> omega
      | inr hb' =>
          rw [List.mem_singleton] at hb'
          obtain ⟨loc', hloc', hlocal⟩ := h.localtime last hlast
          rw [indexAfter, List.getLast?_concat, Option.map_some, Option.getD_some, hloc'] at hloc
          cases hloc
          rw [hb', hlocal]
          omega

omit h heq hgmt hloc

/-- The next transition turns the clock back over the present time `t`, in which `loc` holds; the
ones behind it are in the future. -/
structure TurnsBack (data : Data) (t : Int) (loc loc' : Localtime) (next : Transition)
    (rest : List Transition) : Prop where
  type : data.localtimeAt next.localtimeIdx = .ok loc'
  wasDst : loc.isDst = true
  isStandard : loc'.isDst = false
  near : next.gmttime ≤ t + 3600
  passed : next.localtime ≤ t + loc.gmtOffset
  future : ∀ a ∈ rest, t + loc.gmtOffset < a.localtime
  futureGmt : ∀ a ∈ rest, t + 3600 < a.gmttime

include h heq hgmt hloc

/-- The transitions behind the next one are more than an hour away. -/
theorem RegularZone.rest_future {next : Transition} {rest : List Transition}
    (hafter : after = next :: rest) :
    (∀ a ∈ rest, t + 3600 < a.gmttime) ∧ ∀ a ∈ rest, t + loc.gmtOffset < a.localtime := by
  subst hafter
  have hfuture : t < next.gmttime := hgmt.lt next List.mem_cons_self
  have hgmtRest : ∀ a ∈ rest, t + 3600 < a.gmttime := by
    intro a ha
    have hpairwise := h.pairwise_gmt
    rw [heq] at hpairwise
    have hapart := (List.pairwise_cons.mp (List.pairwise_append.mp hpairwise).2.1).1 a ha
    omega
  refine ⟨hgmtRest, ?_⟩
  intro a ha
  have hgmtA := hgmtRest a ha
  have hbounds := h.localtime_bounds (t := a) (by simp [heq, ha])
  obtain ⟨loc', hloc', hoffset⟩ := h.type_at (h.indexAfter_cases heq)
  rw [hloc] at hloc'
  cases hloc'
  split at hoffset <;> omega

/-- The next transition is in the future by local time, unless it turns the clock back over
the present time. -/
theorem RegularZone.lt_localtime :
    (∀ a ∈ after, t + loc.gmtOffset < a.localtime) ∨
      ∃ next rest loc', after = next :: rest ∧ TurnsBack data t loc loc' next rest := by
  obtain ⟨loc', hloc', hoffset⟩ := h.type_at (h.indexAfter_cases heq)
  rw [hloc] at hloc'
  cases hloc'
  cases after with
  | nil => exact Or.inl (fun a ha => absurd ha List.not_mem_nil)
  | cons next rest =>
      have hnext : next ∈ data.transitions := by simp [heq]
      have hfuture : t < next.gmttime := hgmt.lt next List.mem_cons_self
      obtain ⟨hrestGmt, hrest⟩ := h.rest_future heq hgmt hloc rfl
      obtain ⟨loc', hloc', hlocal⟩ := h.localtime next hnext
      obtain ⟨loc'', hloc'', hoffset'⟩ := h.type_at (h.indices next hnext)
      rw [hloc'] at hloc''
      cases hloc''
      have hdiffer := h.isDst_ne (h.indexAfter_cases heq) (h.indices next hnext)
        (h.indexAfter_ne heq) hloc hloc'
      cases hdst : loc.isDst with
      | false =>
          have hdst' : loc'.isDst = true := by simpa [hdst] using hdiffer
          simp only [hdst, hdst', if_true, Bool.false_eq_true, if_false] at hoffset hoffset'
          refine Or.inl (List.forall_mem_cons.mpr ⟨?_, hrest⟩)
          omega
      | true =>
          have hdst' : loc'.isDst = false := by simpa [hdst] using hdiffer
          simp only [hdst, hdst', if_true, Bool.false_eq_true, if_false] at hoffset hoffset'
          by_cases hahead : t + 3600 < next.gmttime
          · refine Or.inl (List.forall_mem_cons.mpr ⟨?_, hrest⟩)
            omega
          · exact Or.inr ⟨next, rest, loc', rfl, hloc', hdst, hdst', by omega, by omega, hrest,
              hrestGmt⟩

end Convert

end Zone

section RoundTrip

/-- `timegm` gives back what `gmtime_r` took apart; it looks at the date and the time alone. -/
def CTime.Inverts (ctime : CTime) : Prop :=
  ∀ seconds isdst gmtoff zone, ctime.timegm { ctime.gmtime seconds with
    tmIsdst := isdst, tmGmtoff := gmtoff, tmZone := zone } = seconds

/-- The fields of a time in a type of the zone. -/
def localFields (ctime : CTime) (loc : Localtime) (localSeconds : Int) : Tm :=
  { ctime.gmtime localSeconds with
    tmIsdst := if loc.isDst then 1 else 0
    tmGmtoff := loc.gmtOffset
    tmZone := .abbreviation loc.arrbIdx }

theorem Data.mem_of_localtimeAt {data : Data} {idx : Int} {loc : Localtime}
    (h : data.localtimeAt idx = .ok loc) : loc ∈ data.localtimes := by
  rw [localtimeAt] at h
  split at h
  · rw [cellAt] at h
    cases hcell : data.localtimes[idx.toNat]? with
    | none =>
        rw [hcell] at h
        cases h
    | some found =>
        rw [hcell] at h
        cases h
        exact List.mem_of_getElem? hcell
  · cases h

variable {ctime : CTime} {offset : Int} {data : Data} (h : RegularZone offset data)
  (hnames : ctime.checksIndex = true → ∀ loc ∈ data.localtimes, data.Names loc)

include h hnames

theorem RegularZone.toLocalTime_eq {before after : List Transition} {t : Int} {loc : Localtime}
    (heq : data.transitions = before ++ after)
    (hgmt : Threshold.Split (Transition.key true) t before after)
    (hloc : data.localtimeAt (indexAfter before) = .ok loc) :
    toLocalTime ctime data t = .ok (localFields ctime loc (t + loc.gmtOffset)) := by
  have hsorted := h.pairwise_key true
  rw [heq] at hsorted
  have hfind : findLocaltime data ⟨t, 0, 0⟩ true = _ :=
    findLocaltime_eq heq (List.pairwise_append.mp hsorted).1 hgmt
  have hname : zoneName ctime data loc = .ok (.abbreviation loc.arrbIdx) :=
    if_neg fun hbad => hbad.2 (hnames hbad.1 loc (Data.mem_of_localtimeAt hloc))
  simp only [toLocalTime, hfind, hloc, ok_bind, localTm, hname]
  rfl

omit hnames

theorem RegularZone.findLocaltime_local {before after : List Transition} {seconds : Int}
    {loc : Localtime} (heq : data.transitions = before ++ after)
    (hle : ∀ b ∈ before, b.localtime ≤ seconds) (hlt : ∀ a ∈ after, seconds < a.localtime)
    (hloc : data.localtimeAt (indexAfter before) = .ok loc) :
    findLocaltime data ⟨0, seconds, 0⟩ false = .ok loc := by
  have hsorted := h.pairwise_key false
  rw [heq] at hsorted
  have hsplit : Threshold.Split (Transition.key false) (Transition.key false ⟨0, seconds, 0⟩) before
      after :=
    ⟨hle, hlt⟩
  rw [findLocaltime_eq heq (List.pairwise_append.mp hsorted).1 hsplit, hloc]

section Back

variable {before after : List Transition} {t : Int} {loc : Localtime}
  (heq : data.transitions = before ++ after)
  (hgmt : Threshold.Split (Transition.key true) t before after)
  (hloc : data.localtimeAt (indexAfter before) = .ok loc) (hctime : ctime.Inverts)

include hnames heq hgmt hloc hctime

/-- The type is found again, and daylight saving time is no standard time an hour later. -/
theorem RegularZone.fromLocalTime_unique (hlt : ∀ a ∈ after, t + loc.gmtOffset < a.localtime) :
    fromLocalTime ctime data (localFields ctime loc (t + loc.gmtOffset)) = .ok t := by
  have hseconds : ctime.timegm (localFields ctime loc (t + loc.gmtOffset)) = t + loc.gmtOffset :=
    hctime _ _ _ _
  have hlocal := h.toLocalTime_eq hnames heq hgmt hloc
  have hfind := h.findLocaltime_local heq (h.localtime_le heq hgmt hloc) hlt hloc
  have hsame : t + loc.gmtOffset - loc.gmtOffset = t := by omega
  simp only [fromLocalTime, hseconds, hfind, ok_bind, hsame, hlocal, pure_eq_ok]
  cases hdst : loc.isDst with
  | false => simp [localFields, hdst]
  | true => simp [localFields, hdst]

/-- The search takes the clock to be turned back already, and so does the second try; the type
it finds is no daylight saving time, so that the hour is taken off. -/
theorem RegularZone.fromLocalTime_repeated {loc' : Localtime} {next : Transition}
    {rest : List Transition} (hafter : after = next :: rest)
    (hback : TurnsBack data t loc loc' next rest) :
    fromLocalTime ctime data (localFields ctime loc (t + loc.gmtOffset)) = .ok t := by
  subst hafter
  have hseconds : ctime.timegm (localFields ctime loc (t + loc.gmtOffset)) = t + loc.gmtOffset :=
    hctime _ _ _ _
  have hindex : indexAfter (before ++ [next]) = next.localtimeIdx := by
    rw [indexAfter, List.getLast?_concat]
    rfl
  have heq' : data.transitions = (before ++ [next]) ++ rest := by
    rw [heq, List.append_assoc]
    rfl
  have hloc' : data.localtimeAt (indexAfter (before ++ [next])) = .ok loc' := hindex ▸ hback.type
  obtain ⟨was, hwas, hoffset⟩ := h.type_at (h.indexAfter_cases heq)
  obtain ⟨is, his, hoffset'⟩ := h.type_at (h.indexAfter_cases heq')
  cases hloc.symm.trans hwas
  cases hloc'.symm.trans his
  simp only [hback.wasDst, hback.isStandard, if_true, Bool.false_eq_true, if_false]
    at hoffset hoffset'
  have hle : ∀ b ∈ before ++ [next], b.localtime ≤ t + loc.gmtOffset := by
    intro b hb
    cases List.mem_append.mp hb with
    | inl hb => exact h.localtime_le heq hgmt hloc b hb
    | inr hb => exact List.mem_singleton.mp hb ▸ hback.passed
  have hgmt' : Threshold.Split (Transition.key true) (t + 3600) (before ++ [next]) rest := by
    refine ⟨?_, hback.futureGmt⟩
    intro b hb
    cases List.mem_append.mp hb with
    | inl hb => exact le_trans (hgmt.le b hb) (by omega)
    | inr hb => exact List.mem_singleton.mp hb ▸ hback.near
  have hfind := h.findLocaltime_local heq' hle hback.future hloc'
  have htry := h.toLocalTime_eq hnames heq' hgmt' hloc'
  have hlater : t + loc.gmtOffset - loc'.gmtOffset = t + 3600 := by omega
  have hsame : t + 3600 + loc'.gmtOffset = t + loc.gmtOffset := by omega
  have hhour : t + loc.gmtOffset - 3600 - loc'.gmtOffset = t := by omega
  rw [hsame] at htry
  simp only [fromLocalTime, hseconds, hfind, ok_bind, hlater, htry, hhour]
  simp [localFields, hback.wasDst, hback.isStandard]

end Back

include hnames

/-- Local time is converted back to the time it was made of, also in the hour that is repeated
when the clock is turned back. -/
theorem RegularZone.round_trip (hctime : ctime.Inverts) (t : Int) :
    ∃ localTm, toLocalTime ctime data t = .ok localTm ∧
      fromLocalTime ctime data localTm = .ok t := by
  obtain ⟨before, after, heq, hgmt⟩ := Threshold.exists_split (h.pairwise_key true) t
  obtain ⟨loc, hloc, -⟩ := h.type_at (h.indexAfter_cases heq)
  refine ⟨_, h.toLocalTime_eq hnames heq hgmt hloc, ?_⟩
  cases h.lt_localtime heq hgmt hloc with
  | inl hlt => exact h.fromLocalTime_unique hnames heq hgmt hloc hctime hlt
  | inr hrepeated =>
      obtain ⟨next, rest, loc', hafter, hback⟩ := hrepeated
      exact h.fromLocalTime_repeated hnames heq hgmt hloc hctime hafter hback

omit h hnames

/-- The conversions of the calendar. -/
def utcClock : CTime where
  gmtime seconds :=
    let date := Gregorian.ofDays (seconds / 86400 + 719468)
    ⟨seconds % 60, seconds / 60 % 60, seconds / 3600 % 24, date.day, date.month - 1,
      date.year - 1900, (4 + seconds / 86400) % 7, date.dayOfYear, 0, 0, .gmt⟩
  timegm tm :=
    ((⟨tm.tmYear + 1900, tm.tmMon + 1, tm.tmMday⟩ : Gregorian.Date).days - 719468) * 86400 +
      tm.tmHour * 3600 + tm.tmMin * 60 + tm.tmSec
  checksIndex := true

theorem utcClock_inverts : utcClock.Inverts := by
  intro seconds isdst gmtoff zone
  have hdays := Gregorian.days_ofDays (seconds / 86400 + 719468)
  simp only [utcClock, sub_add_cancel, hdays]
  omega

/-- Standard time an hour ahead of UTC, with one period of daylight saving time. -/
def oneSummer : Data :=
  ⟨[⟨100000, 107200, 1⟩, ⟨200000, 203600, 0⟩], [⟨3600, false, 0⟩, ⟨7200, true, 4⟩],
    [67, 69, 84, 0, 67, 69, 83, 84, 0]⟩

theorem oneSummer_regular : RegularZone 3600 oneSummer where
  localtimes := ⟨⟨3600, false, 0⟩, ⟨7200, true, 4⟩, rfl, rfl, rfl, rfl, Or.inl rfl⟩
  apart := by simp [oneSummer]
  indices := by simp [oneSummer]
  alternates := by simp [oneSummer]
  localtime := by simp [oneSummer, Data.localtimeAt, cellAt]

/-- Half an hour before the end of daylight saving time. -/
theorem RegularZone.round_trip_repeated_hour :
    RegularZone 3600 oneSummer ∧ utcClock.Inverts ∧
      ∃ localTm, toLocalTime utcClock oneSummer 198200 = .ok localTm ∧
        fromLocalTime utcClock oneSummer localTm = .ok 198200 :=
  ⟨oneSummer_regular, utcClock_inverts,
    oneSummer_regular.round_trip (fun _ => by decide) utcClock_inverts 198200⟩

end RoundTrip

end TimeZone

end LibMsf
