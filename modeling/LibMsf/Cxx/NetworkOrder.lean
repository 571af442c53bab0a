import LibMsf.Cxx.Strings

/-!
Integers in network order: the most significant byte comes first.
-/

namespace Cxx

def toNetwork (width v : Nat) : Bytes := (serializeValue width v).reverse

def ofNetwork (s : Bytes) : Nat := deserializeValue s.reverse

@[simp] theorem length_toNetwork (width v : Nat) : (toNetwork width v).length = width := by
  rw [toNetwork, List.length_reverse, length_serializeValue]

theorem ofNetwork_of_lt {width v : Nat} (h : v < 256 ^ width) :
    ofNetwork (toNetwork width v) = v := by
  rw [ofNetwork, toNetwork, List.reverse_reverse, deserializeValue_of_lt h]

end Cxx
