/-!
# Bytes

Messages are lists of bytes. Numbers travel lowest byte first, except where the
protocol asks for network order, which is the same bytes reversed. Everything is
aligned to four bytes.
-/

namespace NamedSets

abbrev Bytes := List UInt8

namespace Bytes

def little : (width number : Nat) → Bytes
  | 0, _ => []
  | width + 1, number => UInt8.ofNat number :: little width (number / 256)

def ofLittle : Bytes → Nat
  | [] => 0
  | byte :: rest => byte.toNat + 256 * ofLittle rest

def big (width number : Nat) : Bytes := (little width number).reverse

def ofBig (bytes : Bytes) : Nat := ofLittle bytes.reverse

/-- The least multiple of four that is not below `length`. -/
def aligned (length : Nat) : Nat := (length + 3) / 4 * 4

def zeros (count : Nat) : Bytes := List.replicate count 0

/-- The zero bytes that follow `length` bytes up to the next multiple of four. -/
def padding (length : Nat) : Bytes := zeros (aligned length - length)

def ofText (text : String) : Bytes := text.toUTF8.data.toList

/-- The text that these bytes encode, if they are valid UTF-8. -/
def text? (bytes : Bytes) : Option String := String.fromUTF8? bytes.toByteArray

@[simp] theorem length_little (width number : Nat) : (little width number).length = width := by
  induction width generalizing number with
  | zero => rfl
  | succ width ih => simp [little, ih]

@[simp] theorem length_big (width number : Nat) : (big width number).length = width := by
  simp [big]

@[simp] theorem ofLittle_little (width number : Nat) :
    ofLittle (little width number) = number % Nat.pow 256 width := by
  induction width generalizing number with
  | zero => simp [little, ofLittle, Nat.mod_one]
  | succ width ih =>
      simp only [little, ofLittle, ih, UInt8.toNat_ofNat', Nat.reducePow]
      change _ = number % (Nat.pow 256 width * 256)
      rw [Nat.mul_comm (Nat.pow 256 width), Nat.mod_mul, Nat.mul_comm 256]

@[simp] theorem ofBig_big (width number : Nat) :
    ofBig (big width number) = number % Nat.pow 256 width := by
  simp [ofBig, big]

theorem ofLittle_lt (bytes : Bytes) : ofLittle bytes < Nat.pow 256 bytes.length := by
  induction bytes with
  | nil => simp [ofLittle]
  | cons byte rest ih =>
      have bound := byte.toNat_lt
      simp only [ofLittle, List.length_cons]
      change _ < Nat.pow 256 rest.length * 256
      omega

/-- Reading and writing a number are inverse on its own width. -/
@[simp] theorem little_ofLittle (bytes : Bytes) : little bytes.length (ofLittle bytes) = bytes := by
  induction bytes with
  | nil => rfl
  | cons byte rest ih =>
      have bound := byte.toNat_lt
      have low : UInt8.ofNat (byte.toNat + 256 * ofLittle rest) = byte := by
        apply UInt8.toNat_inj.mp
        simp only [UInt8.toNat_ofNat', Nat.reducePow]
        omega
      have high : (byte.toNat + 256 * ofLittle rest) / 256 = ofLittle rest := by omega
      simp only [ofLittle, List.length_cons, little, low, high, ih]

theorem le_aligned (length : Nat) : length ≤ aligned length := by
  unfold aligned
  omega

theorem aligned_lt (length : Nat) : aligned length < length + 4 := by
  unfold aligned
  omega

@[simp] theorem aligned_mod (length : Nat) : aligned length % 4 = 0 := by
  unfold aligned
  omega

@[simp] theorem length_padding (length : Nat) :
    (padding length).length = aligned length - length := by
  simp [padding, zeros]

end Bytes

end NamedSets
