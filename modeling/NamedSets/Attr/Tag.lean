import NamedSets.Bytes

namespace NamedSets.Attr

structure Tag where
  number : BitVec 14
  nested : Bool := false
  network : Bool := false
deriving DecidableEq, Repr

namespace Tag

def word (tag : Tag) : Nat :=
  tag.number.toNat + 16384 * tag.network.toNat + 32768 * tag.nested.toNat

def ofWord (word : Nat) : Tag where
  number := BitVec.ofNat 14 word
  network := word / 16384 % 2 = 1
  nested := word / 32768 % 2 = 1

theorem word_lt (tag : Tag) : tag.word < 65536 := by
  have bound := tag.number.isLt
  have network := tag.network.toNat_lt
  have nested := tag.nested.toNat_lt
  unfold word
  omega

@[simp] theorem ofWord_word (tag : Tag) : ofWord tag.word = tag := by
  obtain ⟨number, nested, network⟩ := tag
  have bound := number.isLt
  have same : BitVec.ofNat 14 (word ⟨number, nested, network⟩) = number := by
    apply BitVec.eq_of_toNat_eq
    cases nested <;> cases network <;> simp [word] <;> omega
  cases nested <;> cases network <;>
    simp only [ofWord, same, Tag.mk.injEq, true_and, decide_eq_true_eq, decide_eq_false_iff_not] <;>
    simp only [word, Bool.toNat_true, Bool.toNat_false] <;> omega

private theorem toNat_decide_odd (number : Nat) :
    (decide (number % 2 = 1)).toNat = number % 2 := by
  rcases Nat.mod_two_eq_zero_or_one number with bit | bit <;> simp [bit]

/-- Every word of 16 bits is that of a tag. -/
theorem word_ofWord {number : Nat} (short : number < 65536) : (ofWord number).word = number := by
  simp only [word, ofWord, BitVec.toNat_ofNat, toNat_decide_odd]
  omega

end Tag

end NamedSets.Attr
