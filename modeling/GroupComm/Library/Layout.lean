import Mathlib.Algebra.Group.Nat.Defs
import Mathlib.Data.List.Basic
import Mathlib.Data.List.Nodup
import Mathlib.Data.List.OfFn

/-!
# Structs of words in a buffer

A struct of words is written by one store for each field, in any order, and read by one load
for each field.

* `WordCodec` is how a word is laid out in units of memory; `networkOrder` is the big-endian
  layout of 32-bit words in bytes.
* `write` makes a list of stores.  Stores that fill a buffer leave nothing of what it held
  (`write_eq_flatMap`).
* `RoundTrip` says that a pair of functions writes and reads a struct faithfully;
  `Struct.roundTrip` reduces it to the fields of the struct and their places.
-/

/-- How a word of type `ω` is laid out in units of type `α`. -/
structure WordCodec (α ω : Type*) where
  size : ℕ
  encode : ω → List α
  decode : List α → ω
  size_pos : 0 < size
  length_encode : ∀ w, (encode w).length = size
  decode_encode : ∀ w rest, decode (encode w ++ rest) = w
  encode_decode : ∀ units rest, units.length = size → encode (decode (units ++ rest)) = units

namespace WordCodec

variable {α ω : Type*} (C : WordCodec α ω) {buffer units : List α} {i j k : ℕ} {w : ω}

/-- The word with index `i`. -/
def load (buffer : List α) (i : ℕ) : ω :=
  C.decode (buffer.drop (C.size * i))

/-- `buffer` with another word at index `i`. -/
def store (buffer : List α) (i : ℕ) (w : ω) : List α :=
  buffer.take (C.size * i) ++ C.encode w ++ buffer.drop (C.size * (i + 1))

/-- Stores one after another. -/
def write (stores : List (ℕ × ω)) (buffer : List α) : List α :=
  stores.foldl (fun buffer s => C.store buffer s.1 s.2) buffer

/-- The words with the indices below `k`. -/
def loads (buffer : List α) (k : ℕ) : List ω :=
  (List.range k).map (C.load buffer)

variable {C}

@[simp] theorem length_loads : (C.loads buffer k).length = k := by
  simp [loads]

theorem getElem_loads (less : i < (C.loads buffer k).length) :
    (C.loads buffer k)[i] = C.load buffer i := by
  simp [loads]

theorem length_store (inside : C.size * (i + 1) ≤ buffer.length) :
    (C.store buffer i w).length = buffer.length := by
  have bound : C.size * i ≤ C.size * (i + 1) := Nat.mul_le_mul_left _ (Nat.le_succ i)
  have width : C.size * (i + 1) = C.size * i + C.size := Nat.mul_succ _ _
  rw [store, List.length_append, List.length_append, List.length_take, List.length_drop,
    C.length_encode]
  omega

theorem load_append (inside : C.size * (i + 1) ≤ units.length) (rest : List α) :
    C.load (units ++ rest) i = C.load units i := by
  have width : C.size * (i + 1) = C.size * i + C.size := Nat.mul_succ _ _
  rw [load, load, List.drop_append_of_le_length (by omega)]
  have long : C.size ≤ (units.drop (C.size * i)).length := by
    rw [List.length_drop]
    omega
  rw [← List.take_append_drop C.size (units.drop (C.size * i)), List.append_assoc]
  have word : ∀ rest, C.encode (C.decode ((units.drop (C.size * i)).take C.size ++ rest)) =
      (units.drop (C.size * i)).take C.size := fun rest =>
    C.encode_decode _ _ (by rw [List.length_take]; omega)
  -- the decoder looks at one word only
  have same := (word ((units.drop (C.size * i)).drop C.size ++ rest)).trans
    (word ((units.drop (C.size * i)).drop C.size)).symm
  have decoded := congrArg (fun u => C.decode (u ++ [])) same
  rwa [C.decode_encode, C.decode_encode] at decoded

theorem load_store_self (inside : C.size * (i + 1) ≤ buffer.length) :
    C.load (C.store buffer i w) i = w := by
  have width : C.size * (i + 1) = C.size * i + C.size := Nat.mul_succ _ _
  have front : (buffer.take (C.size * i)).length = C.size * i := by
    rw [List.length_take]
    omega
  rw [load, store, List.append_assoc, List.drop_left' front, C.decode_encode]

theorem load_store_of_ne (inside : C.size * (i + 1) ≤ buffer.length) (ne : j ≠ i) :
    C.load (C.store buffer i w) j = C.load buffer j := by
  have width : C.size * (i + 1) = C.size * i + C.size := Nat.mul_succ _ _
  have front : (buffer.take (C.size * i)).length = C.size * i := by
    rw [List.length_take]
    omega
  rcases Nat.lt_or_gt_of_ne ne with before | behind
  · have below : C.size * (j + 1) ≤ C.size * i := Nat.mul_le_mul_left _ before
    rw [store, List.append_assoc, load_append (by rw [front]; exact below)]
    conv_rhs => rw [← List.take_append_drop (C.size * i) buffer,
      load_append (by rw [front]; exact below)]
  · have above : C.size * (i + 1) ≤ C.size * j := Nat.mul_le_mul_left _ behind
    have head : (buffer.take (C.size * i) ++ C.encode w).length = C.size * (i + 1) := by
      rw [List.length_append, front, C.length_encode]
      omega
    rw [load, load, store, List.drop_append, List.drop_eq_nil_of_le (by omega), List.nil_append,
      List.drop_drop, head]
    congr 2
    omega

/-- A buffer is the list of its words. -/
theorem flatMap_loads (full : units.length = C.size * k) :
    (C.loads units k).flatMap C.encode = units := by
  induction k generalizing units with
  | zero =>
      rw [Nat.mul_zero, List.length_eq_zero_iff] at full
      rw [full]
      rfl
  | succ k ih =>
      have width : C.size * (k + 1) = C.size * k + C.size := Nat.mul_succ _ _
      have rest : (units.drop C.size).length = C.size * k := by
        rw [List.length_drop]
        omega
      have tail := ih rest
      have first : C.encode (C.load units 0) = units.take C.size := by
        rw [load, Nat.mul_zero, List.drop_zero]
        conv_lhs => rw [← List.take_append_drop C.size units]
        exact C.encode_decode _ _ (by rw [List.length_take]; omega)
      have shift : (C.loads units (k + 1)) = C.load units 0 :: C.loads (units.drop C.size) k := by
        rw [loads, List.range_succ_eq_map, List.map_cons, List.map_map, loads]
        congr 1
        apply List.map_congr_left
        intro i _
        rw [Function.comp_apply, load, load, List.drop_drop, Nat.mul_succ, Nat.add_comm]
      rw [shift, List.flatMap_cons, first, tail, List.take_append_drop]

theorem length_flatMap (words : List ω) :
    (words.flatMap C.encode).length = C.size * words.length := by
  induction words with
  | nil => rfl
  | cons w words ih =>
      rw [List.flatMap_cons, List.length_append, ih, C.length_encode, List.length_cons,
        Nat.mul_succ, Nat.add_comm]

theorem load_flatMap (words : List ω) (rest : List α) (less : i < words.length) :
    C.load (words.flatMap C.encode ++ rest) i = words[i] := by
  induction words generalizing i with
  | nil => cases less
  | cons w words ih =>
      rw [List.flatMap_cons, List.append_assoc]
      cases i with
      | zero =>
          rw [load, Nat.mul_zero, List.drop_zero, C.decode_encode]
          rfl
      | succ i =>
          rw [List.getElem_cons_succ, ← ih (Nat.lt_of_succ_lt_succ less), load, load, Nat.mul_succ,
            Nat.add_comm, ← List.drop_drop, List.drop_left' (C.length_encode w)]

/-! ## Stores -/

theorem length_write {stores : List (ℕ × ω)} (full : buffer.length = C.size * k)
    (inside : ∀ s ∈ stores, s.1 < k) : (C.write stores buffer).length = C.size * k := by
  induction stores generalizing buffer with
  | nil => exact full
  | cons s stores ih =>
      have here : C.size * (s.1 + 1) ≤ buffer.length := by
        rw [full]
        exact Nat.mul_le_mul_left _ (inside s (by simp))
      exact ih ((length_store here).trans full) fun s mem => inside s (by simp [mem])

theorem load_write_of_notMem {stores : List (ℕ × ω)} (full : buffer.length = C.size * k)
    (inside : ∀ s ∈ stores, s.1 < k) (absent : i ∉ stores.map Prod.fst) :
    C.load (C.write stores buffer) i = C.load buffer i := by
  induction stores generalizing buffer with
  | nil => rfl
  | cons s stores ih =>
      rw [List.map_cons, List.mem_cons, not_or] at absent
      have here : C.size * (s.1 + 1) ≤ buffer.length := by
        rw [full]
        exact Nat.mul_le_mul_left _ (inside s (by simp))
      rw [write, List.foldl_cons]
      refine (ih ((length_store here).trans full) (fun s mem => inside s (by simp [mem]))
        absent.2).trans ?_
      exact load_store_of_ne here absent.1

theorem load_write_of_mem {stores : List (ℕ × ω)} (full : buffer.length = C.size * k)
    (inside : ∀ s ∈ stores, s.1 < k) (once : (stores.map Prod.fst).Nodup)
    (mem : (i, w) ∈ stores) : C.load (C.write stores buffer) i = w := by
  induction stores generalizing buffer with
  | nil => cases mem
  | cons s stores ih =>
      rw [List.map_cons, List.nodup_cons] at once
      have here : C.size * (s.1 + 1) ≤ buffer.length := by
        rw [full]
        exact Nat.mul_le_mul_left _ (inside s (by simp))
      have stored := (length_store (w := s.2) here).trans full
      have later : ∀ s ∈ stores, s.1 < k := fun s mem => inside s (by simp [mem])
      rw [write, List.foldl_cons]
      rcases List.mem_cons.mp mem with rfl | mem
      · refine (load_write_of_notMem stored later once.1).trans ?_
        exact load_store_self here
      · exact ih stored later once.2 mem

/-- **Stores that fill the buffer.**  Whatever their order, and whatever the buffer held. -/
theorem write_eq_flatMap {stores : List (ℕ × ω)} {words : List ω}
    (full : buffer.length = C.size * words.length)
    (inside : ∀ s ∈ stores, s.1 < words.length) (once : (stores.map Prod.fst).Nodup)
    (all : ∀ s ∈ words.zipIdx, (s.2, s.1) ∈ stores) :
    C.write stores buffer = words.flatMap C.encode := by
  rw [← flatMap_loads (length_write full inside)]
  congr 1
  apply List.ext_getElem length_loads
  intro i less less'
  have stored : (i, words[i]) ∈ stores :=
    all (words[i], i) (List.mk_mem_zipIdx_iff_getElem?.mpr (List.getElem?_eq_getElem less'))
  rw [getElem_loads less, load_write_of_mem full inside once stored]

/-- Stores at consecutive indices leave what stands before and behind them. -/
theorem write_zipIdx {words : List ω} {n : ℕ}
    (inside : C.size * (n + words.length) ≤ buffer.length) :
    C.write ((words.zipIdx n).map Prod.swap) buffer =
      buffer.take (C.size * n) ++ words.flatMap C.encode ++
        buffer.drop (C.size * (n + words.length)) := by
  induction words generalizing n buffer with
  | nil => simp [write]
  | cons w words ih =>
      have count : n + (w :: words).length = n + 1 + words.length := by
        rw [List.length_cons]
        omega
      rw [count] at inside ⊢
      have width : C.size * (n + 1) = C.size * n + C.size := Nat.mul_succ _ _
      have below : C.size * (n + 1) ≤ C.size * (n + 1 + words.length) :=
        Nat.mul_le_mul_left _ (Nat.le_add_right _ _)
      have here : C.size * (n + 1) ≤ buffer.length := below.trans inside
      have front : (buffer.take (C.size * n)).length = C.size * n := by
        rw [List.length_take]
        omega
      have head : (buffer.take (C.size * n) ++ C.encode w).length = C.size * (n + 1) := by
        rw [List.length_append, front, C.length_encode, width]
      have widths : C.size * (n + 1 + words.length) ≤ (C.store buffer n w).length := by
        rw [length_store here]
        exact inside
      have later := ih widths
      rw [List.zipIdx_cons, List.map_cons, write, List.foldl_cons]
      refine later.trans ?_
      have back : C.size * (n + 1) + (C.size * (n + 1 + words.length) - C.size * (n + 1)) =
          C.size * (n + 1 + words.length) := by omega
      rw [store, List.take_left' head, List.drop_append, head,
        List.drop_eq_nil_of_le (by rw [head]; exact below), List.nil_append, List.drop_drop, back,
        List.flatMap_cons]
      simp only [List.append_assoc]

/-! ## Round trips -/

variable {μ ν : Type*}

/-- `serialize` and `deserialize` of a struct `ν` of a given size; a message `μ` is what has been
received, and `typeOf` reads the first word of it. -/
structure RoundTrip (size : ℕ) (received : μ → List α) (serialize : ν → List α → List α)
    (deserialize : μ → Option ν) (typeOf : μ → Option ω) (type : ν → ω) : Prop where
  length : ∀ m buffer, buffer.length = size → (serialize m buffer).length = size
  /-- What has been serialized is deserialized to the same. -/
  decoded : ∀ m buffer message, buffer.length = size → received message = serialize m buffer →
    deserialize message = some m
  typed : ∀ m buffer message, buffer.length = size → received message = serialize m buffer →
    typeOf message = some (type m)
  /-- The buffer keeps nothing of what it held. -/
  overwritten : ∀ m buffer buffer', buffer.length = size → buffer'.length = size →
    serialize m buffer = serialize m buffer'
  /-- Whatever has the right size is deserialized, and serialized to the same. -/
  encoded : ∀ message, (received message).length = size → ∃ m, deserialize message = some m ∧
    ∀ buffer, buffer.length = size → serialize m buffer = received message

end WordCodec

/-- A struct `ν` of words, in the order of its fields. -/
structure Struct (ω ν : Type*) where
  size : ℕ
  fields : ν → List ω
  /-- The struct with the words at the indices given. -/
  build : (ℕ → ω) → ν
  width : ∀ m, (fields m).length = size
  injective : Function.Injective fields
  fields_build : ∀ load, fields (build load) = (List.range size).map load

namespace Struct

open WordCodec

variable {α ω μ ν : Type*} {C : WordCodec α ω} {S : Struct ω ν} {received unset : μ → List α}
  {serialize : ν → List α → List α} {deserialize : μ → Option ν} {typeOf : μ → Option ω}
  {type : ν → ω}

theorem load_flatMap_build (m : ν) (rest : List α) :
    S.build (C.load ((S.fields m).flatMap C.encode ++ rest)) = m := by
  apply S.injective
  rw [S.fields_build]
  apply List.ext_getElem
  · rw [List.length_map, List.length_range, S.width]
  · intro i _ less
    rw [List.getElem_map, List.getElem_range, load_flatMap _ _ less]

theorem flatMap_fields_build {units : List α} (full : units.length = C.size * S.size)
    (rest : List α) : (S.fields (S.build (C.load (units ++ rest)))).flatMap C.encode = units := by
  have same : (List.range S.size).map (C.load (units ++ rest)) = C.loads units S.size := by
    apply List.map_congr_left
    intro i mem
    apply load_append
    rw [full]
    exact Nat.mul_le_mul_left _ (List.mem_range.mp mem)
  rw [S.fields_build, same, flatMap_loads full]

/-- **Round trips.**  Of a struct whose fields are stored and loaded at the same places. -/
theorem roundTrip
    (serializes : ∀ m buffer, buffer.length = C.size * S.size →
      serialize m buffer = (S.fields m).flatMap C.encode)
    (deserializes : ∀ message, (received message).length = C.size * S.size →
      deserialize message = some (S.build (C.load (received message ++ unset message))))
    (first : ∀ m, (S.fields m).head? = some (type m))
    (types : ∀ message, received message ≠ [] →
      typeOf message = some (C.load (received message ++ unset message) 0)) :
    RoundTrip (C.size * S.size) received serialize deserialize typeOf type := by
  refine ⟨fun m buffer sized => ?_, fun m buffer message sized same => ?_,
    fun m buffer message sized same => ?_, fun m buffer buffer' sized sized' => ?_,
    fun message full => ?_⟩
  · rw [serializes m buffer sized, length_flatMap, S.width]
  · rw [serializes m buffer sized] at same
    have full : (received message).length = C.size * S.size := by
      rw [same, length_flatMap, S.width]
    rw [deserializes message full, same, load_flatMap_build]
  · rw [serializes m buffer sized] at same
    have head := first m
    cases words : S.fields m with
    | nil =>
        rw [words] at head
        cases head
    | cons w others =>
        rw [words] at head same
        cases head
        have nonempty : received message ≠ [] := by
          rw [← List.length_pos_iff_ne_nil, same, length_flatMap]
          exact Nat.mul_pos C.size_pos (Nat.succ_pos _)
        rw [types message nonempty, same, load_flatMap _ _ (Nat.succ_pos _)]
        rfl
  · rw [serializes m buffer sized, serializes m buffer' sized']
  · refine ⟨_, deserializes message full, fun buffer sized => ?_⟩
    rw [serializes _ buffer sized, flatMap_fields_build full]

end Struct

/-! ## Network order -/

namespace NetworkOrder

/-- The bytes of a word in network order. -/
def htonl (w : UInt32) : List UInt8 :=
  [(w >>> 24).toUInt8, (w >>> 16).toUInt8, (w >>> 8).toUInt8, w.toUInt8]

/-- The word that the first four bytes stand for. -/
def ntohl : List UInt8 → UInt32
  | b₀ :: b₁ :: b₂ :: b₃ :: _ =>
      (b₀.toUInt32 <<< 24) + (b₁.toUInt32 <<< 16) + (b₂.toUInt32 <<< 8) + b₃.toUInt32
  | _ => 0

theorem toNat_ntohl (b₀ b₁ b₂ b₃ : UInt8) (rest : List UInt8) :
    (ntohl (b₀ :: b₁ :: b₂ :: b₃ :: rest)).toNat =
      2 ^ 24 * b₀.toNat + 2 ^ 16 * b₁.toNat + 2 ^ 8 * b₂.toNat + b₃.toNat := by
  have h₀ := b₀.toNat_lt
  have h₁ := b₁.toNat_lt
  have h₂ := b₂.toNat_lt
  have h₃ := b₃.toNat_lt
  simp only [ntohl, UInt32.toNat_add, UInt32.toNat_shiftLeft, UInt8.toNat_toUInt32,
    Nat.shiftLeft_eq, UInt32.reduceToNat, Nat.reduceMod, Nat.reducePow]
  omega

theorem ntohl_htonl (w : UInt32) (rest : List UInt8) : ntohl (htonl w ++ rest) = w := by
  apply UInt32.toNat_inj.mp
  have bound := w.toNat_lt
  refine (toNat_ntohl _ _ _ _ rest).trans ?_
  simp only [UInt32.toNat_toUInt8, UInt32.toNat_shiftRight, Nat.shiftRight_eq_div_pow,
    UInt32.reduceToNat, Nat.reduceMod, Nat.reducePow]
  omega

theorem htonl_ntohl (b₀ b₁ b₂ b₃ : UInt8) (rest : List UInt8) :
    htonl (ntohl (b₀ :: b₁ :: b₂ :: b₃ :: rest)) = [b₀, b₁, b₂, b₃] := by
  have value := toNat_ntohl b₀ b₁ b₂ b₃ rest
  have h₀ := b₀.toNat_lt
  have h₁ := b₁.toNat_lt
  have h₂ := b₂.toNat_lt
  have h₃ := b₃.toNat_lt
  simp only [htonl, List.cons.injEq, and_true]
  refine ⟨?_, ?_, ?_, ?_⟩ <;>
  · apply UInt8.toNat_inj.mp
    simp only [UInt32.toNat_toUInt8, UInt32.toNat_shiftRight, Nat.shiftRight_eq_div_pow, value,
      UInt32.reduceToNat, Nat.reduceMod, Nat.reducePow]
    omega

end NetworkOrder

/-- 32-bit words in network order. -/
def networkOrder : WordCodec UInt8 UInt32 where
  size := 4
  encode := NetworkOrder.htonl
  decode := NetworkOrder.ntohl
  size_pos := by decide
  length_encode _ := rfl
  decode_encode := NetworkOrder.ntohl_htonl
  encode_decode units rest four :=
    match units, four with
    | [b₀, b₁, b₂, b₃], _ => NetworkOrder.htonl_ntohl b₀ b₁ b₂ b₃ rest
