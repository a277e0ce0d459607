import Mathlib.Data.Vector.Basic
import Mathlib.Logic.Equiv.Defs

/-!
# Fixed-size byte layouts

A layout is an encoder and a decoder that are inverse to each other on byte
strings of its size, so both directions of every round trip are fields. Packed
structures are built from words, byte arrays and repetition; words are
little-endian. Decoding a string of another size is total but means nothing.
-/

namespace ByteCodec

universe u v

/-- Bytes of a word, least significant first. -/
def leBytes : Nat → Nat → List UInt8
  | 0, _ => []
  | n + 1, value => UInt8.ofNat value :: leBytes n (value / 256)

/-- The number that little-endian bytes spell. -/
def leNat : List UInt8 → Nat
  | [] => 0
  | byte :: rest => byte.toNat + 256 * leNat rest

@[simp] theorem length_leBytes (n value : Nat) : (leBytes n value).length = n := by
  induction n generalizing value with
  | zero => rfl
  | succ n ih => exact congrArg Nat.succ (ih _)

theorem leNat_lt (bytes : List UInt8) : leNat bytes < 256 ^ bytes.length := by
  induction bytes with
  | nil => exact Nat.one_pos
  | cons byte rest ih =>
    have := byte.toNat_lt
    simp only [leNat, List.length_cons, Nat.pow_succ]
    omega

theorem leNat_leBytes (n value : Nat) (fits : value < 256 ^ n) :
    leNat (leBytes n value) = value := by
  induction n generalizing value with
  | zero =>
    simp only [Nat.pow_zero] at fits
    simp only [leBytes, leNat]
    omega
  | succ n ih =>
    have rest : value / 256 < 256 ^ n := by
      rw [Nat.pow_succ] at fits
      omega
    simp only [leBytes, leNat, UInt8.toNat_ofNat', ih _ rest]
    omega

theorem leBytes_leNat (bytes : List UInt8) : leBytes bytes.length (leNat bytes) = bytes := by
  induction bytes with
  | nil => rfl
  | cons byte rest ih =>
    have small := byte.toNat_lt
    have low : UInt8.ofNat (byte.toNat + 256 * leNat rest) = byte := by
      apply UInt8.toNat_inj.mp
      rw [UInt8.toNat_ofNat']
      omega
    have high : (byte.toNat + 256 * leNat rest) / 256 = leNat rest := by omega
    simp only [List.length_cons, leBytes, leNat, low, high, ih]

end ByteCodec

open ByteCodec in
/-- A layout of fixed size; encoding and decoding are inverse to each other. -/
structure Codec (α : Type u) where
  size : Nat
  encode : α → List UInt8
  decode : List UInt8 → α
  length_encode : ∀ a, (encode a).length = size
  decode_encode : ∀ a, decode (encode a) = a
  encode_decode : ∀ bytes, bytes.length = size → encode (decode bytes) = bytes

namespace Codec

open ByteCodec

universe u v
variable {α : Type u} {β : Type v}

/-- An `n`-byte little-endian word of a type that counts up to `256 ^ n`. -/
def word (n : Nat) (toNat : α → Nat) (ofNat : Nat → α) (toNat_lt : ∀ a, toNat a < 256 ^ n)
    (ofNat_toNat : ∀ a, ofNat (toNat a) = a)
    (toNat_ofNat : ∀ value, value < 256 ^ n → toNat (ofNat value) = value) : Codec α where
  size := n
  encode := fun a => leBytes n (toNat a)
  decode := fun bytes => ofNat (leNat bytes)
  length_encode := fun a => length_leBytes n (toNat a)
  decode_encode := fun a => by rw [leNat_leBytes n _ (toNat_lt a), ofNat_toNat]
  encode_decode := fun bytes size => by
    rw [toNat_ofNat _ (size ▸ leNat_lt bytes), ← size, leBytes_leNat]

def uint16 : Codec UInt16 :=
  word 2 UInt16.toNat UInt16.ofNat (fun a => a.toNat_lt) (fun _ => UInt16.ofNat_toNat)
    (fun _ fits => UInt16.toNat_ofNat_of_lt' fits)

def uint32 : Codec UInt32 :=
  word 4 UInt32.toNat UInt32.ofNat (fun a => a.toNat_lt) (fun _ => UInt32.ofNat_toNat)
    (fun _ fits => UInt32.toNat_ofNat_of_lt' fits)

def uint64 : Codec UInt64 :=
  word 8 UInt64.toNat UInt64.ofNat (fun a => a.toNat_lt) (fun _ => UInt64.ofNat_toNat)
    (fun _ fits => UInt64.toNat_ofNat_of_lt' fits)

/-- The same bytes read as another type. -/
def map (c : Codec α) (e : α ≃ β) : Codec β where
  size := c.size
  encode := fun b => c.encode (e.symm b)
  decode := fun bytes => e (c.decode bytes)
  length_encode := fun b => c.length_encode _
  decode_encode := fun b => by rw [c.decode_encode, e.apply_symm_apply]
  encode_decode := fun bytes size => by rw [e.symm_apply_apply, c.encode_decode bytes size]

/-- One layout after the other, without padding. -/
def prod (c : Codec α) (d : Codec β) : Codec (α × β) where
  size := c.size + d.size
  encode := fun p => c.encode p.1 ++ d.encode p.2
  decode := fun bytes => (c.decode (bytes.take c.size), d.decode (bytes.drop c.size))
  length_encode := fun p => by rw [List.length_append, c.length_encode, d.length_encode]
  decode_encode := fun p => by
    rw [List.take_left' (c.length_encode p.1), List.drop_left' (c.length_encode p.1),
      c.decode_encode, d.decode_encode]
  encode_decode := fun bytes size => by
    rw [c.encode_decode, d.encode_decode, List.take_append_drop]
    · rw [List.length_drop, size, Nat.add_sub_cancel_left]
    · rw [List.length_take, size]
      exact Nat.min_eq_left (Nat.le_add_right _ _)

/-- A byte array. -/
def bytes (n : Nat) : Codec (Vector UInt8 n) where
  size := n
  encode := fun v => v.toList
  decode := fun bytes => Vector.ofFn (fun i => bytes.getD i 0)
  length_encode := fun v => v.length_toList
  decode_encode := fun v => by
    ext i hi
    simp [List.getD_eq_getElem?_getD]
  encode_decode := fun bytes size => by
    subst size
    refine List.ext_getElem (by simp) ?_
    intro i _ hi
    simp [List.getD_eq_getElem?_getD]

theorem bytes_encode {n : Nat} (v : Vector UInt8 n) : (bytes n).encode v = v.toList := rfl

/-- Item `i` of equally sized items laid out back to back. -/
theorem slice_flatMap (c : Codec α) (items : List α) (i : Nat) (hi : i < items.length) :
    ((items.flatMap c.encode).drop (i * c.size)).take c.size = c.encode items[i] := by
  induction items generalizing i with
  | nil => cases hi
  | cons item rest ih =>
    rw [List.flatMap_cons]
    cases i with
    | zero =>
      rw [Nat.zero_mul, List.drop_zero, List.take_left' (c.length_encode item)]
      rfl
    | succ i =>
      have past : (i + 1) * c.size = (c.encode item).length + i * c.size := by
        rw [c.length_encode, Nat.succ_mul, Nat.add_comm]
      rw [past, List.drop_length_add_append]
      exact ih i (Nat.lt_of_succ_lt_succ hi)

theorem length_flatMap_encode (c : Codec α) (items : List α) :
    (items.flatMap c.encode).length = items.length * c.size := by
  induction items with
  | nil => exact (Nat.zero_mul _).symm
  | cons item rest ih =>
    rw [List.flatMap_cons, List.length_append, c.length_encode, ih, List.length_cons,
      Nat.succ_mul, Nat.add_comm]

/-- Cutting a string into `n` pieces of one size and joining them changes nothing. -/
theorem flatMap_slices (size n : Nat) (bytes : List UInt8) (length : bytes.length = n * size) :
    (List.range n).flatMap (fun i => (bytes.drop (i * size)).take size) = bytes := by
  induction n generalizing bytes with
  | zero =>
    rw [Nat.zero_mul] at length
    exact (List.eq_nil_of_length_eq_zero length).symm
  | succ n ih =>
    have shorter : (bytes.drop size).length = n * size := by
      rw [List.length_drop, length, Nat.succ_mul, Nat.add_sub_cancel]
    rw [List.range_succ_eq_map, List.flatMap_cons, List.flatMap_map, Nat.zero_mul,
      List.drop_zero]
    have next : ∀ i, (i + 1) * size = size + i * size := fun i => by
      rw [Nat.succ_mul, Nat.add_comm]
    simp only [Nat.succ_eq_add_one, next, ← List.drop_drop]
    rw [ih _ shorter, List.take_append_drop]

/-- A fixed number of items back to back. -/
def vector (c : Codec α) (n : Nat) : Codec (Vector α n) where
  size := n * c.size
  encode := fun v => v.toList.flatMap c.encode
  decode := fun bytes => Vector.ofFn (fun i => c.decode ((bytes.drop (i * c.size)).take c.size))
  length_encode := fun v => by rw [length_flatMap_encode, v.length_toList]
  decode_encode := fun v => by
    ext i hi
    have slice := slice_flatMap c v.toList i (by simpa using hi)
    simp only [Vector.getElem_ofFn, slice, c.decode_encode]
    exact Vector.getElem_toList _
  encode_decode := fun bytes length => by
    have pieces : ∀ i ∈ List.range n,
        c.encode (c.decode ((bytes.drop (i * c.size)).take c.size)) =
          (bytes.drop (i * c.size)).take c.size := by
      intro i hi
      apply c.encode_decode
      have below : (i + 1) * c.size ≤ n * c.size :=
        Nat.mul_le_mul_right _ (List.mem_range.mp hi)
      rw [Nat.succ_mul] at below
      rw [List.length_take, List.length_drop, length]
      omega
    have listed : (Vector.ofFn (fun i : Fin n =>
        c.decode ((bytes.drop (i * c.size)).take c.size))).toList =
        (List.range n).map (fun i => c.decode ((bytes.drop (i * c.size)).take c.size)) := by
      refine List.ext_getElem (by simp) ?_
      intro i _ _
      simp
    rw [listed, List.flatMap_map]
    calc (List.range n).flatMap
          (fun i => c.encode (c.decode ((bytes.drop (i * c.size)).take c.size)))
        = (List.range n).flatMap (fun i => (bytes.drop (i * c.size)).take c.size) :=
          List.flatMap_congr pieces
      _ = bytes := flatMap_slices c.size n bytes length

/-- The front of items laid out back to back is whole items and part of one more. -/
theorem take_flatMap_encode (c : Codec α) (positive : 0 < c.size) (other : α) (items : List α)
    (k : Nat) :
    ∃ item j, j < c.size ∧ (item ∈ items ∨ item = other) ∧
      (items.flatMap c.encode).take k =
        (items.take (k / c.size)).flatMap c.encode ++ (c.encode item).take j := by
  induction items generalizing k with
  | nil => exact ⟨other, 0, positive, Or.inr rfl, by simp⟩
  | cons first rest ih =>
    rw [List.flatMap_cons]
    rcases Nat.lt_or_ge k c.size with inside | past
    · refine ⟨first, k, inside, Or.inl List.mem_cons_self, ?_⟩
      rw [Nat.div_eq_of_lt inside, List.take_append_of_le_length]
      · rfl
      · exact (c.length_encode first).symm ▸ inside.le
    · obtain ⟨item, j, below, mem, cut⟩ := ih (k - c.size)
      refine ⟨item, j, below, mem.imp_left (List.mem_cons_of_mem first), ?_⟩
      rw [List.take_append, c.length_encode, cut,
        List.take_of_length_le ((c.length_encode first).trans_le past),
        Nat.div_eq_sub_div positive past, List.take_succ_cons, List.flatMap_cons,
        List.append_assoc]

/-- What is encoded in front of other bytes is found there again. -/
theorem decode_take_append (c : Codec α) (a : α) (rest : List UInt8) :
    c.decode ((c.encode a ++ rest).take c.size) = a := by
  rw [List.take_left' (c.length_encode a), c.decode_encode]

end Codec
