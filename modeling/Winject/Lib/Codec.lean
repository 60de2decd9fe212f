import Mathlib.Data.List.Basic

/-!
# Decoders and encoders of byte strings

A `Decoder` takes a value off the front of the bytes that are left, and fails past their
end.  A `Format` says which bytes stand for a value, and need not be a function of either.
`Decodes` connects the two: what a decoder accepts is exactly what the format allows,
followed by the bytes that it leaves.

An `Encoder` appends bytes to what has been written, and fails when there is no room for
them.  `Writes` says which bytes it appends, whatever was written before.

## Main results

* `Decodes.pure`, `Decodes.bind`, `Decodes.ite` — decoders are put together as the formats
  are.
* `Writes.bind` — of two encoders, the second has the room that the first has left.
-/

namespace Winject.Lib.Codec

variable {α β : Type}

/-! ## Decoders -/

/-- The value at the front and the bytes behind it. -/
abbrev Decoder (α : Type) := StateT (List UInt8) Option α

/-- The bytes that stand for a value. -/
abbrev Format (α : Type) := α → List UInt8 → Prop

/-- The next `n` bytes. -/
def octets (n : Nat) : Decoder (List UInt8) :=
  fun bytes => if n > bytes.length then none else some (bytes.take n, bytes.drop n)

/-- The decoder accepts exactly the format. -/
def Decodes (d : Decoder α) (F : Format α) : Prop :=
  ∀ bytes a rest, d.run bytes = some (a, rest) ↔ ∃ front, F a front ∧ bytes = front ++ rest

/-- The bytes of a value are read back, whatever is behind them. -/
theorem Decodes.accepts {d : Decoder α} {F : Format α} (h : Decodes d F) {a : α}
    {front : List UInt8} (hF : F a front) (rest : List UInt8) :
    d.run (front ++ rest) = some (a, rest) :=
  (h _ a rest).mpr ⟨front, hF, rfl⟩

/-- No bytes. -/
def Format.pure (a : α) : Format α := fun b bytes => b = a ∧ bytes = []

/-- The bytes of a value, and behind them those of another that may depend on it. -/
def Format.bind (F : Format α) (G : α → Format β) : Format β :=
  fun b bytes => ∃ a front back, F a front ∧ G a b back ∧ bytes = front ++ back

theorem Decodes.pure (a : α) : Decodes (Pure.pure a) (Format.pure a) := by
  intro bytes b rest
  rw [StateT.run_pure]
  constructor
  · intro h
    cases h
    exact ⟨[], ⟨rfl, rfl⟩, rfl⟩
  · rintro ⟨front, ⟨rfl, rfl⟩, rfl⟩
    rfl

theorem Decodes.bind {d : Decoder α} {e : α → Decoder β} {F : Format α} {G : α → Format β}
    (hd : Decodes d F) (he : ∀ a, Decodes (e a) (G a)) : Decodes (d >>= e) (F.bind G) := by
  intro bytes b rest
  rw [StateT.run_bind, Option.bind_eq_bind, Option.bind_eq_some_iff]
  constructor
  · rintro ⟨⟨a, mid⟩, hfirst, hsecond⟩
    obtain ⟨front, hF, rfl⟩ := (hd bytes a mid).mp hfirst
    obtain ⟨back, hG, rfl⟩ := (he a mid b rest).mp hsecond
    exact ⟨front ++ back, ⟨a, front, back, hF, hG, rfl⟩, (List.append_assoc ..).symm⟩
  · rintro ⟨whole, ⟨a, front, back, hF, hG, rfl⟩, rfl⟩
    refine ⟨(a, back ++ rest), (hd _ _ _).mpr ⟨front, hF, List.append_assoc ..⟩, ?_⟩
    exact (he a _ b rest).mpr ⟨back, hG, rfl⟩

/-- The bytes of `f a` are those of `a`. -/
def Format.map (f : α → β) (F : Format α) : Format β :=
  fun b bytes => ∃ a, b = f a ∧ F a bytes

theorem Decodes.map {d : Decoder α} {F : Format α} (hd : Decodes d F) (f : α → β) :
    Decodes (f <$> d) (F.map f) := by
  intro bytes b rest
  rw [StateT.run_map, Option.map_eq_map, Option.map_eq_some_iff]
  constructor
  · rintro ⟨⟨a, rest'⟩, hrun, hpair⟩
    cases hpair
    obtain ⟨front, hF, rfl⟩ := (hd bytes a _).mp hrun
    exact ⟨front, ⟨a, rfl, hF⟩, rfl⟩
  · rintro ⟨front, ⟨a, rfl, hF⟩, rfl⟩
    exact ⟨(a, rest), hd.accepts hF _, rfl⟩

/-- Formats that allow the same bytes. -/
theorem Decodes.congr {d : Decoder α} {F G : Format α} (hd : Decodes d F)
    (h : ∀ a bytes, F a bytes ↔ G a bytes) : Decodes d G := by
  intro bytes a rest
  rw [hd bytes a rest]
  simp only [h]

/-- A condition that is known when the decoder gets there. -/
theorem Decodes.ite {c : Prop} [Decidable c] {d e : Decoder α} {F G : Format α}
    (hd : Decodes d F) (he : Decodes e G) :
    Decodes (if c then d else e) (if c then F else G) := by
  split_ifs
  · exact hd
  · exact he

theorem Decodes.octets (n : Nat) :
    Decodes (octets n) fun a bytes => a = bytes ∧ bytes.length = n := by
  intro bytes a rest
  constructor
  · intro h
    change (if n > bytes.length then none else some (bytes.take n, bytes.drop n)) = _ at h
    split_ifs at h with hlong
    cases h
    refine ⟨bytes.take n, ⟨rfl, ?_⟩, (List.take_append_drop n bytes).symm⟩
    rw [List.length_take]
    omega
  · rintro ⟨front, ⟨rfl, rfl⟩, rfl⟩
    change (if a.length > (a ++ rest).length then none else
      some ((a ++ rest).take a.length, (a ++ rest).drop a.length)) = _
    rw [if_neg (by rw [List.length_append]; omega), List.take_left, List.drop_left]

/-! ## Encoders -/

/-- What has been written, and the room behind it. -/
structure Buffer where
  written : List UInt8 := []
  room : Nat
  deriving DecidableEq, Repr

/-- Bytes that fit into the room. -/
def Buffer.append (b : Buffer) (bytes : List UInt8) : Buffer where
  written := b.written ++ bytes
  room := b.room - bytes.length

/-- A writer into a buffer. -/
abbrev Encoder := StateT Buffer Option Unit

/-- Write some bytes. -/
def put (bytes : List UInt8) : Encoder :=
  fun b => if bytes.length > b.room then none else some ((), b.append bytes)

/-- The encoder writes these bytes, or fails without the room for them. -/
def Writes (e : Encoder) (bytes : List UInt8) : Prop :=
  ∀ b : Buffer, e.run b = if bytes.length ≤ b.room then some ((), b.append bytes) else none

theorem Writes.put (bytes : List UInt8) : Writes (put bytes) bytes := by
  intro b
  change (if bytes.length > b.room then none else some ((), b.append bytes)) = _
  by_cases h : bytes.length ≤ b.room
  · rw [if_neg (by omega), if_pos h]
  · rw [if_pos (by omega), if_neg h]

theorem Writes.pure : Writes (Pure.pure ()) [] := by
  intro b
  have hroom : ([] : List UInt8).length ≤ b.room := Nat.zero_le _
  rw [StateT.run_pure, if_pos hroom]
  simp [Buffer.append]

/-- Two encoders, one behind the other. -/
theorem Writes.bind {e e' : Encoder} {bytes bytes' : List UInt8} (h : Writes e bytes)
    (h' : Writes e' bytes') : Writes (e >>= fun _ => e') (bytes ++ bytes') := by
  intro b
  rw [StateT.run_bind, h b, List.length_append]
  by_cases hfirst : bytes.length ≤ b.room
  · rw [if_pos hfirst, Option.bind_eq_bind, Option.bind_some, h' (b.append bytes)]
    have hroom : (b.append bytes).room = b.room - bytes.length := rfl
    rw [hroom]
    by_cases hall : bytes.length + bytes'.length ≤ b.room
    · rw [if_pos (by omega), if_pos hall]
      simp [Buffer.append, Nat.sub_sub]
    · rw [if_neg (by omega), if_neg hall]
  · rw [if_neg hfirst, if_neg (by omega)]
    rfl

end Winject.Lib.Codec
