import LibMsf.Library.Run

/-!
`CompoundTokenBucket` of `base/flow_ctrl.h`.

The template parameter `T` is an unsigned type of `w` bits, and an array of `size` cells is a
function on its indices. `add` multiplies the time that has passed with `rate_` in floating point
and rounds the product to a `uint32_t`; these rounded products are arguments here, so that
`rate_` and `timestamp_` are not needed. That `add` takes the time from `TimeStamp()`, which is
zero, and not from a clock is left out.

A grant is all or nothing: the first loop cuts the request down to the capacity and gives up where
there are too few tokens, and only the second loop changes the tokens.
-/

namespace LibMsf

open Cxx

structure CompoundTokenBucket (w size : Nat) where
  tokens : Fin size → BitVec w
  capacity : Fin size → BitVec w
  percent : Fin size → Int

namespace CompoundTokenBucket

variable {w size : Nat}

def create (capacity : Fin size → BitVec w) : CompoundTokenBucket w size :=
  ⟨capacity, capacity, fun _ => 100⟩

/-- The constructor for one dimension. -/
def createSingle (capacity : BitVec w) : Except Fault (CompoundTokenBucket w size) := do
  assertThat (size = 1)
  return create fun _ => capacity

/-- `std::min`. -/
def stdMin (a b : BitVec w) : BitVec w :=
  if b < a then b else a

theorem toNat_stdMin (a b : BitVec w) : (stdMin a b).toNat = min a.toNat b.toNat := by
  rw [stdMin]
  split
  · rename_i h
    rw [BitVec.lt_def] at h
    omega
  · rename_i h
    rw [BitVec.lt_def] at h
    omega

/-- The loop of `add`, with the amounts that it adds. -/
def fill (b : CompoundTokenBucket w size) (amounts : Fin size → BitVec w) :
    CompoundTokenBucket w size :=
  { b with tokens := fun i => stdMin (b.capacity i) (b.tokens i + amounts i) }

/-- A `uint32_t` times an `int` is a `uint32_t`. -/
def refillAmount (rounded : UInt32) (percent : Int) : UInt32 :=
  rounded * UInt32.ofInt percent / 100

def add (b : CompoundTokenBucket w size) (rounded : Fin size → UInt32) :
    CompoundTokenBucket w size :=
  b.fill fun i => (refillAmount (rounded i) (b.percent i)).toBitVec.setWidth w

/-- The loop that checks the request; it also changes the array of the caller. -/
def checkLoop (b : CompoundTokenBucket w size) :
    List (Fin size) → (Fin size → BitVec w) → Bool × (Fin size → BitVec w)
  | [], tokenSize => (true, tokenSize)
  | i :: is, tokenSize =>
      let tokenSize :=
        if tokenSize i > b.capacity i then Function.update tokenSize i (b.capacity i)
        else tokenSize
      if b.tokens i < tokenSize i then (false, tokenSize) else b.checkLoop is tokenSize

/-- The loop that takes the tokens. -/
def takeLoop (tokenSize : Fin size → BitVec w) :
    List (Fin size) → (Fin size → BitVec w) → Fin size → BitVec w
  | [], tokens => tokens
  | i :: is, tokens => takeLoop tokenSize is (Function.update tokens i (tokens i - tokenSize i))

def grant (b : CompoundTokenBucket w size) (tokenSize : Fin size → BitVec w) :
    Bool × (Fin size → BitVec w) × CompoundTokenBucket w size :=
  let (granted, tokenSize) := b.checkLoop (List.finRange size) tokenSize
  if granted then
    (true, tokenSize, { b with tokens := takeLoop tokenSize (List.finRange size) b.tokens })
  else (false, tokenSize, b)

/-- There is no check for an index below zero. -/
def setPercent (b : CompoundTokenBucket w size) (percent index : Int) :
    Except Fault (CompoundTokenBucket w size) :=
  if h : index ≥ size then .ok b
  else
    let percent := if percent < 0 then 0 else percent
    let percent := if percent > 100 then 100 else percent
    if hlow : 0 ≤ index then
      .ok { b with percent := Function.update b.percent ⟨index.toNat, by omega⟩ percent }
    else .error .outOfBounds

/-- A call, with the amounts of a refill and the request of a grant. -/
inductive Op (w size : Nat) where
  | add (amounts : Fin size → BitVec w)
  | grant (tokenSize : Fin size → BitVec w)
  | setPercent (percent index : Int)

/-- The result is that of a grant, if the call is one. -/
def step (b : CompoundTokenBucket w size) :
    Op w size → Except Fault (CompoundTokenBucket w size × Option Bool)
  | .add amounts => .ok (b.fill amounts, none)
  | .grant tokenSize =>
      let (granted, _, b') := b.grant tokenSize
      .ok (b', some granted)
  | .setPercent percent index => do
      let b' ← b.setPercent percent index
      return (b', none)

section Grant

variable {b : CompoundTokenBucket w size}

/-- The request, cut down to the capacity. -/
def clamped (b : CompoundTokenBucket w size) (tokenSize : Fin size → BitVec w) (i : Fin size) :
    BitVec w :=
  if tokenSize i > b.capacity i then b.capacity i else tokenSize i

theorem toNat_clamped (tokenSize : Fin size → BitVec w) (i : Fin size) :
    (b.clamped tokenSize i).toNat = min (tokenSize i).toNat (b.capacity i).toNat :=
  toNat_stdMin (tokenSize i) (b.capacity i)

theorem clamped_update {tokenSize : Fin size → BitVec w} {i j : Fin size} (h : j ≠ i)
    (v : BitVec w) : b.clamped (Function.update tokenSize i v) j = b.clamped tokenSize j := by
  simp only [clamped, Function.update_of_ne h]

theorem checkLoop_cons (i : Fin size) (is : List (Fin size)) (tokenSize : Fin size → BitVec w) :
    b.checkLoop (i :: is) tokenSize =
      if b.tokens i < b.clamped tokenSize i then
        (false, Function.update tokenSize i (b.clamped tokenSize i))
      else b.checkLoop is (Function.update tokenSize i (b.clamped tokenSize i)) := by
  have hupdate : (if tokenSize i > b.capacity i then
      Function.update tokenSize i (b.capacity i) else tokenSize) =
        Function.update tokenSize i (b.clamped tokenSize i) := by
    rw [clamped]
    split
    · rfl
    · rw [Function.update_eq_self]
  rw [checkLoop, hupdate, Function.update_self]

/-- What a loop over some cells has changed when it has come to the first one. -/
theorem ite_mem_cons (f g : Fin size → BitVec w) (i : Fin size) (is : List (Fin size)) :
    (fun j => if j ∈ is then f j else Function.update g i (f i) j) =
      fun j => if j ∈ i :: is then f j else g j := by
  funext j
  by_cases hj : j ∈ is
  · rw [if_pos hj, if_pos (List.mem_cons_of_mem i hj)]
  · rw [if_neg hj]
    by_cases heq : j = i
    · rw [heq, Function.update_self, if_pos List.mem_cons_self]
    · rw [Function.update_of_ne heq, if_neg (by simp [heq, hj])]

theorem checkLoop_granted {is : List (Fin size)} (hnodup : is.Nodup)
    {tokenSize : Fin size → BitVec w} (h : ∀ i ∈ is, ¬b.tokens i < b.clamped tokenSize i) :
    b.checkLoop is tokenSize =
      (true, fun j => if j ∈ is then b.clamped tokenSize j else tokenSize j) := by
  induction is generalizing tokenSize with
  | nil => simp [checkLoop]
  | cons i is ih =>
      obtain ⟨hi, hnodup⟩ := List.nodup_cons.mp hnodup
      have hother : ∀ j ∈ is, b.clamped (Function.update tokenSize i (b.clamped tokenSize i)) j =
          b.clamped tokenSize j :=
        fun j hj => clamped_update (ne_of_mem_of_not_mem hj hi) _
      rw [checkLoop_cons, if_neg (h i List.mem_cons_self), ih hnodup, ← ite_mem_cons]
      · congr 1
        funext j
        by_cases hj : j ∈ is
        · rw [if_pos hj, if_pos hj, hother j hj]
        · rw [if_neg hj, if_neg hj]
      · intro j hj
        rw [hother j hj]
        exact h j (List.mem_cons_of_mem i hj)

theorem checkLoop_refused {is : List (Fin size)} (hnodup : is.Nodup)
    {tokenSize : Fin size → BitVec w} (h : ∃ i ∈ is, b.tokens i < b.clamped tokenSize i) :
    (b.checkLoop is tokenSize).1 = false := by
  induction is generalizing tokenSize with
  | nil =>
      obtain ⟨i, hi, -⟩ := h
      cases hi
  | cons i is ih =>
      obtain ⟨hi, hnodup⟩ := List.nodup_cons.mp hnodup
      rw [checkLoop_cons]
      by_cases hfirst : b.tokens i < b.clamped tokenSize i
      · rw [if_pos hfirst]
      · rw [if_neg hfirst]
        apply ih hnodup
        obtain ⟨j, hj, hlt⟩ := h
        cases hj with
        | head => exact absurd hlt hfirst
        | tail _ hj =>
            refine ⟨j, hj, ?_⟩
            rw [clamped_update (ne_of_mem_of_not_mem hj hi)]
            exact hlt

theorem takeLoop_eq (tokenSize : Fin size → BitVec w) {is : List (Fin size)} (hnodup : is.Nodup)
    (tokens : Fin size → BitVec w) :
    takeLoop tokenSize is tokens =
      fun j => if j ∈ is then tokens j - tokenSize j else tokens j := by
  induction is generalizing tokens with
  | nil => simp [takeLoop]
  | cons i is ih =>
      obtain ⟨hi, hnodup⟩ := List.nodup_cons.mp hnodup
      rw [takeLoop, ih hnodup, ← ite_mem_cons]
      funext j
      by_cases hj : j ∈ is
      · have hne : j ≠ i := ne_of_mem_of_not_mem hj hi
        rw [if_pos hj, if_pos hj, Function.update_of_ne hne]
      · rw [if_neg hj, if_neg hj]

/-- Either some dimension has too few tokens and nothing is taken, or all have enough. -/
theorem grant_cases (b : CompoundTokenBucket w size) (tokenSize : Fin size → BitVec w) :
    ((b.grant tokenSize).1 = false ∧ (b.grant tokenSize).2.2 = b) ∨
      (∀ i, b.clamped tokenSize i ≤ b.tokens i) ∧ b.grant tokenSize =
        (true, b.clamped tokenSize,
          { b with tokens := fun i => b.tokens i - b.clamped tokenSize i }) := by
  by_cases h : ∃ i ∈ List.finRange size, b.tokens i < b.clamped tokenSize i
  · have hcheck := checkLoop_refused (List.nodup_finRange size) h
    refine .inl ?_
    simp only [grant, hcheck, Bool.false_eq_true, if_false, and_self]
  · have hall : ∀ i ∈ List.finRange size, ¬b.tokens i < b.clamped tokenSize i :=
      fun i hi hlt => h ⟨i, hi, hlt⟩
    refine .inr ⟨fun i => BitVec.not_lt.mp (hall i (List.mem_finRange i)), ?_⟩
    simp only [grant, checkLoop_granted (List.nodup_finRange size) hall, if_true,
      takeLoop_eq _ (List.nodup_finRange size), List.mem_finRange]

end Grant

section Runs

/-- The buckets that a constructor makes. -/
inductive Constructed : CompoundTokenBucket w size → Prop where
  | create (capacity : Fin size → BitVec w) : Constructed (create capacity)
  | createSingle {capacity : BitVec w} {b : CompoundTokenBucket w size}
      (h : createSingle capacity = .ok b) : Constructed b

/-- The tokens of every dimension are within its capacity. -/
def Bounded (b : CompoundTokenBucket w size) : Prop :=
  ∀ i, (b.tokens i).toNat ≤ (b.capacity i).toNat

/-- A grant takes nothing, or from each dimension what is asked for up to its capacity, which is
there. -/
def AllOrNothing (b : CompoundTokenBucket w size) (tokenSize : Fin size → BitVec w)
    (granted : Option Bool) (b' : CompoundTokenBucket w size) : Prop :=
  (granted = some false ∧ b'.tokens = b.tokens) ∨
    granted = some true ∧ ∀ i,
      min (tokenSize i).toNat (b.capacity i).toNat ≤ (b.tokens i).toNat ∧
      (b'.tokens i).toNat =
        (b.tokens i).toNat - min (tokenSize i).toNat (b.capacity i).toNat

/-- A call that goes well: it ends, tokens stay within the capacities, and a grant is all or
nothing. -/
def Atomic (b : CompoundTokenBucket w size) (op : Op w size) (granted : Option Bool)
    (b' : CompoundTokenBucket w size) : Prop :=
  b.step op = .ok (b', granted) ∧ b'.Bounded ∧
    ∀ tokenSize, op = .grant tokenSize → b.AllOrNothing tokenSize granted b'

variable {b b' : CompoundTokenBucket w size}

theorem Constructed.bounded (h : Constructed b) : b.Bounded := by
  cases h with
  | create capacity => exact fun i => Nat.le_refl _
  | @createSingle capacity _ h =>
      obtain ⟨-, -, hb⟩ := bind_eq_ok.mp h
      cases hb
      exact fun i => Nat.le_refl _

theorem setPercent_negative (b : CompoundTokenBucket w size) (percent : Int) {index : Int}
    (h : index < 0) : b.setPercent percent index = .error .outOfBounds := by
  have hhigh : ¬index ≥ size := by omega
  rw [setPercent, dif_neg hhigh, dif_neg (Int.not_le.mpr h)]

theorem Atomic.index_nonneg {percent index : Int} {granted : Option Bool}
    (h : b.Atomic (.setPercent percent index) granted b') : 0 ≤ index := by
  by_contra hlow
  have hfault := h.1
  rw [step, setPercent_negative b percent (Int.not_le.mp hlow), error_bind] at hfault
  cases hfault

theorem fill_bounded (b : CompoundTokenBucket w size) (amounts : Fin size → BitVec w) :
    (b.fill amounts).Bounded := by
  intro i
  rw [fill, toNat_stdMin]
  exact Nat.min_le_left _ _

theorem Bounded.grant (h : b.Bounded) (tokenSize : Fin size → BitVec w) :
    (b.grant tokenSize).2.2.Bounded ∧
      b.AllOrNothing tokenSize (some (b.grant tokenSize).1) (b.grant tokenSize).2.2 := by
  cases b.grant_cases tokenSize with
  | inl hrefused =>
      rw [hrefused.1, hrefused.2]
      exact ⟨h, .inl ⟨rfl, rfl⟩⟩
  | inr hgranted =>
      obtain ⟨henough, heq⟩ := hgranted
      have htaken (i : Fin size) : (b.tokens i - b.clamped tokenSize i).toNat =
          (b.tokens i).toNat - (b.clamped tokenSize i).toNat :=
        BitVec.toNat_sub_of_le (henough i)
      rw [heq]
      refine ⟨?_, .inr ⟨rfl, ?_⟩⟩
      · intro i
        rw [htaken i]
        exact Nat.le_trans (Nat.sub_le _ _) (h i)
      · intro i
        rw [← toNat_clamped]
        exact ⟨BitVec.le_def.mp (henough i), htaken i⟩

theorem Bounded.atomic (h : b.Bounded) {op : Op w size}
    (hop : ∀ percent index, op = .setPercent percent index → 0 ≤ index) :
    ∃ granted b', b.Atomic op granted b' := by
  cases op with
  | add amounts => exact ⟨none, _, rfl, b.fill_bounded amounts, fun _ heq => nomatch heq⟩
  | grant tokenSize =>
      obtain ⟨hbounded, hall⟩ := h.grant tokenSize
      refine ⟨_, _, rfl, hbounded, ?_⟩
      intro tokenSize' heq
      cases heq
      exact hall
  | setPercent percent index =>
      have hlow := hop percent index rfl
      have hset : ∃ b', b.setPercent percent index = .ok b' ∧ b'.Bounded := by
        rw [setPercent]
        by_cases hhigh : index ≥ size
        · rw [dif_pos hhigh]
          exact ⟨b, rfl, h⟩
        · rw [dif_neg hhigh, dif_pos hlow]
          exact ⟨_, rfl, h⟩
      obtain ⟨b', hset, hbounded⟩ := hset
      refine ⟨none, b', ?_, hbounded, fun _ heq => nomatch heq⟩
      rw [step, hset, ok_bind, pure_eq_ok]

/-- A run from construction goes well just when no percentage is set at an index below zero. -/
theorem run_atomic_iff (hb : Constructed b) (ops : List (Op w size)) :
    (∃ results b', Run.Steps Atomic b ops results b') ↔
      ∀ percent index, .setPercent percent index ∈ ops → 0 ≤ index := by
  constructor
  · rintro ⟨results, b', hsteps⟩
    clear hb
    induction hsteps with
    | nil b => exact fun _ _ hmem => nomatch hmem
    | @cons b b₁ b' op granted ops results head tail ih =>
        intro percent index hmem
        cases hmem with
        | head => exact head.index_nonneg
        | tail _ hmem => exact ih percent index hmem
  · intro hops
    have hbounded := hb.bounded
    clear hb
    induction ops generalizing b with
    | nil => exact ⟨[], b, .nil b⟩
    | cons op ops ih =>
        have hop : ∀ percent index, op = .setPercent percent index → 0 ≤ index :=
          fun percent index heq => hops percent index (heq ▸ List.mem_cons_self)
        obtain ⟨granted, b₁, hatomic⟩ := hbounded.atomic hop
        obtain ⟨results, b', hsteps⟩ := ih
          (fun percent index hmem => hops percent index (List.mem_cons_of_mem op hmem)) hatomic.2.1
        exact ⟨granted :: results, b', .cons hatomic hsteps⟩

theorem run_atomic_two :
    Constructed (create fun _ => 5 : CompoundTokenBucket 64 2) ∧ ∃ results b',
      Run.Steps Atomic (create fun _ => 5 : CompoundTokenBucket 64 2)
        [.grant fun _ => 7, .setPercent 50 1, .add fun _ => 3, .setPercent 50 9] results b' := by
  refine ⟨.create _, (run_atomic_iff (.create _) _).mpr ?_⟩
  intro percent index hmem
  simp only [List.mem_cons, List.not_mem_nil, Op.setPercent.injEq, reduceCtorEq, false_or,
    or_false] at hmem
  omega

/-- With one dimension of 64 bits, `percent_[-4]` is the low half of `capacity_[0]`. -/
theorem run_negative_index :
    ¬∃ results b', Run.Steps Atomic (create fun _ => 5 : CompoundTokenBucket 64 1)
      [.setPercent 0 (-4)] results b' := by
  rintro ⟨results, b', hsteps⟩
  cases hsteps with
  | cons head _ => exact absurd head.index_nonneg (by decide)

end Runs

section Refill

theorem toNat_refillAmount (rounded : UInt32) (p : Nat) :
    (refillAmount rounded p).toNat = rounded.toNat * p % 2 ^ 32 / 100 := by
  have hpercent : (UInt32.ofInt p).toNat = p % 2 ^ 32 := by
    rw [UInt32.ofInt, UInt32.toNat_ofNat']
    omega
  rw [refillAmount, UInt32.toNat_div, UInt32.toNat_mul, hpercent, Nat.mul_mod_mod]
  rfl

theorem setPercent_percent {b b' : CompoundTokenBucket w size} {p : Nat} {i : Fin size}
    (hp : p ≤ 100) (h : b.setPercent p i = .ok b') : b'.percent i = p := by
  have hhigh : ¬(i : Int) ≥ size := by omega
  rw [setPercent, dif_neg hhigh, dif_pos (Int.natCast_nonneg i)] at h
  cases h
  have hlow : ¬(p : Int) < 0 := by omega
  have hupper : ¬(p : Int) > 100 := by omega
  simp only [Int.toNat_natCast, Function.update_self, if_neg hlow, if_neg hupper]

theorem toNat_add_tokens {b : CompoundTokenBucket 64 size} {i : Fin size} {p : Nat}
    (hp : b.percent i = p) (ht : (b.tokens i).toNat < 2 ^ 63) (rounded : Fin size → UInt32) :
    ((b.add rounded).tokens i).toNat =
      min (b.capacity i).toNat
        ((b.tokens i).toNat + (rounded i).toNat * p % 2 ^ 32 / 100) := by
  have hamount : ((refillAmount (rounded i) (b.percent i)).toBitVec.setWidth 64).toNat =
      (rounded i).toNat * p % 2 ^ 32 / 100 := by
    rw [hp, BitVec.toNat_setWidth, UInt32.toNat_toBitVec, toNat_refillAmount]
    omega
  -- the sum of a number below 2 ^ 63 and one below 2 ^ 32 does not wrap
  have hsum : (b.tokens i + (refillAmount (rounded i) (b.percent i)).toBitVec.setWidth 64).toNat =
      (b.tokens i).toNat + (rounded i).toNat * p % 2 ^ 32 / 100 := by
    rw [BitVec.toNat_add, hamount]
    omega
  rw [add, fill, toNat_stdMin, hsum]

/-- The tokens become what exact arithmetic gives just when the product fits in 32 bits, or the
capacity is reached with what is left of the product. -/
theorem add_exact_iff {b b' : CompoundTokenBucket 64 size} {i : Fin size} {p : Nat}
    (hp : p ≤ 100) (hset : b.setPercent p i = .ok b') (ht : (b'.tokens i).toNat < 2 ^ 63)
    (rounded : Fin size → UInt32) :
    ((b'.add rounded).tokens i).toNat =
        min (b'.capacity i).toNat ((b'.tokens i).toNat + (rounded i).toNat * p / 100) ↔
      (rounded i).toNat * p < 2 ^ 32 ∨
        (b'.capacity i).toNat ≤ (b'.tokens i).toNat + (rounded i).toNat * p % 2 ^ 32 / 100 := by
  rw [toNat_add_tokens (setPercent_percent hp hset) ht]
  omega

theorem add_exact_half :
    ∃ b' : CompoundTokenBucket 64 1,
      (create fun _ => 500).setPercent 50 0 = .ok b' ∧
      ((b'.add fun _ => 30).tokens 0).toNat = 500 := by
  refine ⟨_, rfl, ?_⟩
  exact (add_exact_iff (p := 50) (i := 0) (by decide) rfl (by decide) _).mpr
    (.inl (by decide))

/-- After a refill by `42949673` the four tokens there are become `4` and not `42949677`. -/
theorem add_product_wraps :
    ∃ b' b'' : CompoundTokenBucket 64 1,
      (create fun _ => 50000000).setPercent 100 0 = .ok b' ∧
      b'.step (.grant fun _ => 49999996) = .ok (b'', some true) ∧
      (b''.tokens 0).toNat = 4 ∧
      ((b''.add fun _ => 42949673).tokens 0).toNat = 4 ∧
      min (b''.capacity 0).toNat ((b''.tokens 0).toNat + 42949673 * 100 / 100) = 42949677 := by
  exact ⟨_, _, rfl, rfl, by decide, by decide, by decide⟩

end Refill

end CompoundTokenBucket

end LibMsf
