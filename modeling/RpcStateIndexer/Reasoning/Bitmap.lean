import Mathlib.Data.Int.Interval
import Mathlib.Data.List.Nodup
import Mathlib.Data.Set.Image

/-!
# A set of integers kept in words

The index `i` is bit `i % width` of word `i / width`, both rounded down.  So every index has one place,
and the words from that of the least index to that of the greatest hold the whole set.
-/

namespace RpcStateIndexer.Reasoning

variable {width : Nat}

/-- The bits that a set of indices has in one word. -/
def bitsIn (width : Nat) (indices : Set Int) (word : Int) : Set Nat :=
  {bit | bit < width ∧ word * width + bit ∈ indices}

/-- The indices of the bits of some words. -/
def indicesOf (width : Nat) (words : List (Int × List Nat)) : List Int :=
  words.flatMap fun word => word.2.map fun bit : Nat => word.1 * width + bit

theorem mem_indicesOf {words : List (Int × List Nat)} {i : Int} :
    i ∈ indicesOf width words ↔ ∃ word ∈ words, ∃ bit ∈ word.2, word.1 * width + bit = i := by
  simp only [indicesOf, List.mem_flatMap, List.mem_map]

/-- An index has a place. -/
theorem exists_place (hwidth : 0 < width) (i : Int) : ∃ bit < width, i / width * width + bit = i := by
  have hpos : (0 : Int) < width := Int.natCast_pos.mpr hwidth
  refine ⟨(i % width).toNat, ?_, ?_⟩
  · have hlt := Int.emod_lt_of_pos i hpos
    omega
  · rw [Int.toNat_of_nonneg (Int.emod_nonneg i hpos.ne'), mul_comm]
    exact Int.mul_ediv_add_emod i width

/-- An index has only one place. -/
theorem word_of_place (word : Int) {bit : Nat} (h : bit < width) :
    (word * width + bit) / width = word := by
  have hpos : (0 : Int) < width := by omega
  rw [add_comm, Int.add_mul_ediv_right _ _ hpos.ne',
    Int.ediv_eq_zero_of_lt (Int.natCast_nonneg bit) (by omega), zero_add]

theorem place_inj {word word' : Int} {bit bit' : Nat} (h : bit < width) (h' : bit' < width)
    (heq : word * width + bit = word' * width + bit') : word = word' ∧ bit = bit' := by
  have hword : word = word' := by rw [← word_of_place word h, heq, word_of_place word' h']
  subst hword
  exact ⟨rfl, by omega⟩

/-- Words apart, each naming its bits once, name their indices once. -/
theorem nodup_indicesOf {words : List (Int × List Nat)} (hwords : (words.map Prod.fst).Nodup)
    (hbits : ∀ word ∈ words, word.2.Nodup ∧ ∀ bit ∈ word.2, bit < width) :
    (indicesOf width words).Nodup := by
  rw [indicesOf, List.nodup_flatMap]
  constructor
  · intro word hword
    obtain ⟨hnodup, hlt⟩ := hbits word hword
    refine List.Nodup.map_on ?_ hnodup
    intro bit hbit bit' hbit' heq
    exact (place_inj (hlt bit hbit) (hlt bit' hbit') heq).2
  · refine (List.pairwise_map.mp hwords).imp_of_mem ?_
    intro word word' hword hword' hne i hi hi'
    obtain ⟨bit, hbit, rfl⟩ := List.mem_map.mp hi
    obtain ⟨bit', hbit', heq⟩ := List.mem_map.mp hi'
    exact hne (place_inj ((hbits word hword).2 bit hbit) ((hbits word' hword').2 bit' hbit') heq.symm).1

/-- Words that cover a set and hold its bits name exactly its members. -/
theorem mem_indicesOf_iff (hwidth : 0 < width) {indices : Set Int} {words : List (Int × List Nat)}
    (hcover : ∀ i ∈ indices, i / width ∈ words.map Prod.fst)
    (hbits : ∀ word ∈ words, ∀ bit, bit ∈ word.2 ↔ bit ∈ bitsIn width indices word.1) {i : Int} :
    i ∈ indicesOf width words ↔ i ∈ indices := by
  rw [mem_indicesOf]
  constructor
  · rintro ⟨word, hword, bit, hbit, rfl⟩
    exact ((hbits word hword bit).mp hbit).2
  · intro hi
    obtain ⟨word, hword, hposition⟩ := List.mem_map.mp (hcover i hi)
    obtain ⟨bit, hbit, hplace⟩ := exists_place hwidth i
    rw [← hposition] at hplace
    refine ⟨word, hword, bit, (hbits word hword bit).mpr ⟨hbit, ?_⟩, hplace⟩
    rwa [hplace]

end RpcStateIndexer.Reasoning
