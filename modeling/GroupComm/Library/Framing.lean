import Mathlib.Data.List.Basic

/-!
# Framing

Messages written to a stream one behind the other, and read from it in pieces.

* `Cuts reads messages`: no read is empty, and together they are what was written.
* `Aligned reads messages`: each read is one message.

A decoder that takes a piece only for what its first units announce, and only at the length
of that, decodes a stream exactly when the reads are aligned with the messages
(`decoded_iff`).
-/

/-- How messages `μ` are written in units `α`, and how `ν` is read from a piece `γ`. -/
structure Framing (α γ μ ν : Type*) where
  encode : μ → List α
  units : γ → List α
  decode : γ → Option ν
  content : μ → ν
  encode_ne_nil : ∀ m, encode m ≠ []
  decode_encode : ∀ {c m}, units c = encode m → decode c = some (content m)
  /-- A piece is not accepted for the beginning of more, nor for more than one message. -/
  exact : ∀ {c m rest rest'}, decode c ≠ none → units c ++ rest = encode m ++ rest' →
    units c = encode m

namespace Framing

variable {α γ μ ν : Type*} (F : Framing α γ μ ν) {reads : List γ} {messages : List μ}

structure Cuts (reads : List γ) (messages : List μ) : Prop where
  nonempty : ∀ c ∈ reads, F.units c ≠ []
  stream : reads.flatMap F.units = messages.flatMap F.encode

def Aligned (reads : List γ) (messages : List μ) : Prop :=
  reads.map F.units = messages.map F.encode

variable {F}

theorem Aligned.decoded (aligned : F.Aligned reads messages) :
    reads.mapM F.decode = some (messages.map F.content) := by
  unfold Aligned at aligned
  induction messages generalizing reads with
  | nil =>
      rw [List.map_nil, List.map_eq_nil_iff] at aligned
      rw [aligned]
      rfl
  | cons m messages ih =>
      obtain ⟨c, reads, rfl, head, tail⟩ := List.map_eq_cons_iff.mp aligned
      rw [List.mapM_cons, F.decode_encode head, ih tail]
      rfl

/-- Reads that are all accepted are aligned. -/
theorem Cuts.aligned (cuts : F.Cuts reads messages)
    (accepted : ∀ c ∈ reads, F.decode c ≠ none) : F.Aligned reads messages := by
  obtain ⟨nonempty, stream⟩ := cuts
  unfold Aligned
  induction messages generalizing reads with
  | nil =>
      rw [List.flatMap_nil, List.flatMap_eq_nil_iff] at stream
      cases reads with
      | nil => rfl
      | cons c reads =>
          exact absurd (stream c List.mem_cons_self) (nonempty c List.mem_cons_self)
  | cons m messages ih =>
      cases reads with
      | nil =>
          rw [List.flatMap_cons, List.flatMap_nil] at stream
          exact absurd (List.append_eq_nil_iff.mp stream.symm).1 (F.encode_ne_nil m)
      | cons c reads =>
          rw [List.flatMap_cons, List.flatMap_cons] at stream
          have head : F.units c = F.encode m := F.exact (accepted c List.mem_cons_self) stream
          rw [head, List.append_cancel_left_eq] at stream
          have tail := ih (fun c' mem => accepted c' (List.mem_cons_of_mem _ mem))
            (fun c' mem => nonempty c' (List.mem_cons_of_mem _ mem)) stream
          rw [List.map_cons, List.map_cons, head, tail]

theorem accepted_of_decoded {contents : List ν} (decoded : reads.mapM F.decode = some contents) :
    ∀ c ∈ reads, F.decode c ≠ none := by
  induction reads generalizing contents with
  | nil =>
      intro c mem
      cases mem
  | cons c' reads ih =>
      rw [List.mapM_cons, Option.bind_eq_bind, Option.bind_eq_some_iff] at decoded
      obtain ⟨first, head, decoded⟩ := decoded
      rw [Option.bind_eq_bind, Option.bind_eq_some_iff] at decoded
      obtain ⟨others, tail, _⟩ := decoded
      intro c mem
      rcases List.mem_cons.mp mem with rfl | mem
      · rw [head]
        exact Option.some_ne_none first
      · exact ih tail c mem

/-- **Framing.**  What is read is what was written exactly when each read is one message. -/
theorem decoded_iff (cuts : F.Cuts reads messages) :
    reads.mapM F.decode = some (messages.map F.content) ↔ F.Aligned reads messages := by
  constructor
  · intro decoded
    exact cuts.aligned (accepted_of_decoded decoded)
  · intro aligned
    exact aligned.decoded

end Framing
