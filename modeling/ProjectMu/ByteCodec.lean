import ProjectMu.ByteRange
import Mathlib.Data.Vector.Basic

/-!
# Fixed-size byte codecs

A `Codec` writes a value as a fixed number of bytes and reads it back. Its fields
include both round trips, so a codec assembled from little-endian integers by
`prod`, `iso` and `vector` is lossless in both directions by construction.
-/

namespace ByteCodec

abbrev Byte := BitVec 8

/-- The little-endian value of a byte string. -/
def littleEndian : List Byte → ℕ
  | [] => 0
  | b :: bs => b.toNat + 256 * littleEndian bs

def toLittleEndian : ℕ → ℕ → List Byte
  | 0, _ => []
  | n + 1, v => BitVec.ofNat 8 v :: toLittleEndian n (v / 256)

@[simp] theorem length_toLittleEndian (n v : ℕ) : (toLittleEndian n v).length = n := by
  induction n generalizing v with
  | zero => rfl
  | succ n ih => simp only [toLittleEndian, List.length_cons, ih]

theorem littleEndian_lt (bs : List Byte) : littleEndian bs < 256 ^ bs.length := by
  induction bs with
  | nil => simp [littleEndian]
  | cons b bs ih =>
    have hb : b.toNat < 256 := b.isLt
    rw [littleEndian, List.length_cons, pow_succ]
    omega

theorem littleEndian_toLittleEndian (n v : ℕ) :
    littleEndian (toLittleEndian n v) = v % 256 ^ n := by
  induction n generalizing v with
  | zero => simp [toLittleEndian, littleEndian, Nat.mod_one]
  | succ n ih =>
    rw [toLittleEndian, littleEndian, ih, BitVec.toNat_ofNat, pow_succ' 256 n,
      Nat.mod_mul (x := v) (a := 256) (b := 256 ^ n)]

theorem toLittleEndian_littleEndian (bs : List Byte) :
    toLittleEndian bs.length (littleEndian bs) = bs := by
  induction bs with
  | nil => rfl
  | cons b bs ih =>
    have hb : b.toNat < 256 := b.isLt
    rw [List.length_cons, littleEndian, toLittleEndian]
    congr 1
    · apply BitVec.eq_of_toNat_eq
      rw [BitVec.toNat_ofNat]
      omega
    · rw [show (b.toNat + 256 * littleEndian bs) / 256 = littleEndian bs by omega, ih]

theorem littleEndian_append (a b : List Byte) :
    littleEndian (a ++ b) = littleEndian a + 256 ^ a.length * littleEndian b := by
  induction a with
  | nil => simp [littleEndian]
  | cons x a ih =>
    rw [List.cons_append, littleEndian, littleEndian, ih, List.length_cons, pow_succ']
    ring

theorem drop_toLittleEndian (n k v : ℕ) :
    (toLittleEndian n v).drop k = toLittleEndian (n - k) (v / 256 ^ k) := by
  induction k generalizing n v with
  | zero => simp
  | succ k ih =>
    cases n with
    | zero => simp [toLittleEndian]
    | succ n =>
      rw [toLittleEndian, List.drop_succ_cons, ih, Nat.div_div_eq_div_mul, ← pow_succ',
        Nat.add_sub_add_right]

structure Codec (α : Type*) where
  size : ℕ
  encode : α → List Byte
  decode : List Byte → α
  length_encode : ∀ a, (encode a).length = size
  decode_encode : ∀ a, decode (encode a) = a
  encode_decode : ∀ bs, bs.length = size → encode (decode bs) = bs

namespace Codec

variable {α β : Type*}

attribute [simp] Codec.length_encode Codec.decode_encode

/-- `n` little-endian bytes of a `w`-bit integer. -/
def uint (w n : ℕ) (h : w = 8 * n) : Codec (BitVec w) where
  size := n
  encode v := toLittleEndian n v.toNat
  decode bs := BitVec.ofNat w (littleEndian bs)
  length_encode v := length_toLittleEndian n v.toNat
  decode_encode v := by
    have hw : (256 : ℕ) ^ n = 2 ^ w := by rw [h, pow_mul]; norm_num
    rw [littleEndian_toLittleEndian, hw, Nat.mod_eq_of_lt v.isLt, BitVec.ofNat_toNat,
      BitVec.setWidth_eq]
  encode_decode bs hbs := by
    have hw : (256 : ℕ) ^ n = 2 ^ w := by rw [h, pow_mul]; norm_num
    have hlt := littleEndian_lt bs
    rw [hbs, hw] at hlt
    rw [BitVec.toNat_ofNat, Nat.mod_eq_of_lt hlt, ← hbs, toLittleEndian_littleEndian]

def prod (c : Codec α) (d : Codec β) : Codec (α × β) where
  size := c.size + d.size
  encode p := c.encode p.1 ++ d.encode p.2
  decode bs := (c.decode (bs.take c.size), d.decode (bs.drop c.size))
  length_encode p := by simp
  decode_encode p := by
    rw [List.take_left' (c.length_encode p.1), List.drop_left' (c.length_encode p.1),
      c.decode_encode, d.decode_encode]
  encode_decode bs hbs := by
    have hc : (bs.take c.size).length = c.size := by simp [hbs]
    have hd : (bs.drop c.size).length = d.size := by simp [hbs]
    rw [c.encode_decode _ hc, d.encode_decode _ hd, List.take_append_drop]

def iso (c : Codec α) (e : β ≃ α) : Codec β where
  size := c.size
  encode b := c.encode (e b)
  decode bs := e.symm (c.decode bs)
  length_encode b := c.length_encode (e b)
  decode_encode b := by rw [c.decode_encode, e.symm_apply_apply]
  encode_decode bs hbs := by rw [e.apply_symm_apply, c.encode_decode bs hbs]

def nil : Codec (List.Vector α 0) where
  size := 0
  encode _ := []
  decode _ := List.Vector.nil
  length_encode _ := rfl
  decode_encode v := (List.Vector.eq_nil v).symm
  encode_decode _ hbs := (List.eq_nil_of_length_eq_zero hbs).symm

def uncons (n : ℕ) : List.Vector α (n + 1) ≃ α × List.Vector α n where
  toFun v := (v.head, v.tail)
  invFun p := p.1 ::ᵥ p.2
  left_inv v := List.Vector.cons_head_tail v
  right_inv p := by simp

/-- `n` consecutive values of one codec. -/
def vector (c : Codec α) : (n : ℕ) → Codec (List.Vector α n)
  | 0 => nil
  | n + 1 => (c.prod (vector c n)).iso (uncons n)

end Codec
end ByteCodec
