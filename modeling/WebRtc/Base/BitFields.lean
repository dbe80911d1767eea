import WebRtc.Base.BitBufferWriter

/-! Bit level formats as data. `Fields α` says which fields follow one another in a stream, where a
later field may depend on the values of earlier ones; `u n` is a field of `n` bits and `ue` an
exponential Golomb code, as the H.264 sources name them. One format is read from a `BitBuffer`,
parsed from a list of bits, or copied field by field into a writer, and the three agree. -/

namespace WebRtc.Bits
open BitBuffer BitStream List Option

variable {α : Type} {p q l r : List Bool} {v : BitVec 32} {b : BitBuffer}

inductive Fields (α : Type) where
  | done (a : α)
  | fail
  | bits (n : Nat) (next : BitVec 32 → Fields α)
  | golomb (next : BitVec 32 → Fields α)

namespace Fields

def bind {α β : Type} : Fields α → (α → Fields β) → Fields β
  | .done a, g => g a
  | .fail, _ => .fail
  | .bits n next, g => .bits n fun v => (next v).bind g
  | .golomb next, g => .golomb fun v => (next v).bind g

instance : Monad Fields where
  pure := .done
  bind := bind

/-- A field of `n` bits. -/
def u (n : Nat) : Fields (BitVec 32) := .bits n .done

/-- An exponential Golomb code. -/
def ue : Fields (BitVec 32) := .golomb .done

/-- `n` groups of fields, one after the other. -/
def times {α : Type} : Nat → Fields α → Fields (List α)
  | 0, _ => return []
  | n + 1, f => do
    let a ← f
    let as ← times n f
    return a :: as

/-- The fields read from a buffer. -/
def read {α : Type} : Fields α → Reader α
  | .done a => fun b => some (a, b)
  | .fail => fun _ => none
  | .bits n next => fun b => do
    let (v, b) ← readBits n b
    (next v).read b
  | .golomb next => fun b => do
    let (v, b) ← readExponentialGolomb b
    (next v).read b

/-- The fields at the front of a stream, and the rest of the stream. -/
def parse {α : Type} : Fields α → List Bool → Option (α × List Bool)
  | .done a, l => some (a, l)
  | .fail, _ => none
  | .bits n next, l =>
    if n ≤ l.length ∧ n ≤ 32 then (next (BitVec.ofNat 32 (ofBits (l.take n)))).parse (l.drop n)
    else none
  | .golomb next, l =>
    match parseGolomb l with
    | some (v, l) => (next v).parse l
    | none => none

/-- The macros `COPY_BITS` and `COPY_EXP_GOLOMB`: each field is read from the source and written to
the destination. -/
def copy {α : Type} : Fields α → BitBuffer → BitBuffer → Option (α × BitBuffer × BitBuffer)
  | .done a, source, destination => some (a, source, destination)
  | .fail, _, _ => none
  | .bits n next, source, destination => do
    let (v, source) ← readBits n source
    let (_, destination) ← writeBits (v.setWidth 64) n destination
    (next v).copy source destination
  | .golomb next, source, destination => do
    let (v, source) ← readExponentialGolomb source
    let (_, destination) ← writeExponentialGolomb v destination
    (next v).copy source destination

/-! ## Parsing -/

theorem parse_bind {β : Type} (f : Fields α) (g : α → Fields β) (l : List Bool) :
    (f >>= g).parse l = (f.parse l).bind fun r => (g r.1).parse r.2 := by
  induction f generalizing l with
  | done a => rfl
  | fail => rfl
  | bits n next ih =>
    show (Fields.bits n fun v => (next v).bind g).parse l = _
    simp only [parse]
    split
    · exact ih _ _
    · rfl
  | golomb next ih =>
    show (Fields.golomb fun v => (next v).bind g).parse l = _
    simp only [parse]
    split
    · exact ih _ _
    · rfl

/-- The bits `p` are the fields `f` with the value `a`, whatever follows. -/
def Reads {α : Type} (f : Fields α) (p : List Bool) (a : α) : Prop :=
  ∀ r, f.parse (p ++ r) = some (a, r)

variable {f : Fields α} {a : α}

theorem reads_done (a : α) : (Fields.done a).Reads [] a := fun _ => rfl

theorem reads_bits {n : Nat} {next : BitVec 32 → Fields α} (hn : n ≤ 32) (hp : p.length = n)
    (h : (next (BitVec.ofNat 32 (ofBits p))).Reads q a) : (Fields.bits n next).Reads (p ++ q) a := by
  intro r
  have htake : (p ++ q ++ r).take n = p := by
    rw [append_assoc]
    exact take_left' hp
  have hdrop : (p ++ q ++ r).drop n = q ++ r := by
    rw [append_assoc]
    exact drop_left' hp
  rw [parse, if_pos ⟨by simp; omega, hn⟩, htake, hdrop]
  exact h r

theorem reads_golomb {next : BitVec 32 → Fields α} (hv : v.toNat + 1 < 2 ^ 32)
    (h : (next v).Reads q a) : (Fields.golomb next).Reads (golombBits v.toNat ++ q) a := by
  intro r
  rw [parse, append_assoc, parseGolomb_golombBits hv]
  exact h r

theorem Reads.bind {β : Type} {g : α → Fields β} {b : β} (hf : f.Reads p a)
    (hg : (g a).Reads q b) : (f >>= g).Reads (p ++ q) b := by
  intro r
  rw [parse_bind, append_assoc, hf (q ++ r)]
  exact hg r

theorem reads_pure (a : α) : (pure a : Fields α).Reads [] a := reads_done a

/-- A field of `n` bits reads the lowest `n` bits of a value back. -/
theorem reads_u {n : Nat} (hn : n ≤ 32) (hp : p.length = n) :
    (u n).Reads p (BitVec.ofNat 32 (ofBits p)) := by
  have h : (u n).Reads (p ++ []) _ := reads_bits hn hp (reads_done _)
  rwa [append_nil] at h

theorem reads_ue (hv : v.toNat + 1 < 2 ^ 32) : ue.Reads (golombBits v.toNat) v := by
  have h : ue.Reads (golombBits v.toNat ++ []) v := reads_golomb hv (reads_done v)
  rwa [append_nil] at h

/-- What is parsed depends on the bits that are taken only. -/
theorem reads_of_parse (h : f.parse l = some (a, r)) :
    ∃ p, l = p ++ r ∧ f.Reads p a := by
  induction f generalizing l with
  | done b =>
    cases h
    exact ⟨[], rfl, reads_done _⟩
  | fail => cases h
  | bits n next ih =>
    rw [parse] at h
    split at h
    · next hn =>
      obtain ⟨q, hq, hread⟩ := ih _ h
      refine ⟨l.take n ++ q, ?_, reads_bits hn.2 (by simp; omega) hread⟩
      rw [append_assoc, ← hq, take_append_drop]
    · cases h
  | golomb next ih =>
    rw [parse] at h
    split at h
    · next v _ hparse =>
      obtain ⟨q, hq, hread⟩ := ih _ h
      obtain ⟨hl, hv⟩ := parseGolomb_eq_some hparse
      refine ⟨golombBits v.toNat ++ q, ?_, reads_golomb hv hread⟩
      rw [append_assoc, ← hq, hl]
    · cases h

/-- The bits of a sequence of two formats split between them. -/
theorem reads_bind_cases {β : Type} {g : α → Fields β} {s : List Bool} {b : β}
    (h : (f >>= g).Reads s b) : ∃ p q a, s = p ++ q ∧ f.Reads p a ∧ (g a).Reads q b := by
  have hparse := h []
  rw [parse_bind, append_nil] at hparse
  obtain ⟨⟨a, l⟩, hf, hg⟩ := bind_eq_some_iff.mp hparse
  obtain ⟨p, hp, hfp⟩ := reads_of_parse hf
  obtain ⟨q, hq, hgq⟩ := reads_of_parse hg
  have hl : l = q := by rw [← append_nil q, ← hq]
  exact ⟨p, q, a, by rw [hp, hl], hfp, hgq⟩

theorem reads_pure_cases {a b : α} (h : (pure a : Fields α).Reads p b) : p = [] ∧ b = a := by
  have hparse := h []
  rw [append_nil] at hparse
  obtain ⟨ha, hp⟩ := Prod.mk.inj (some.inj hparse)
  exact ⟨hp, ha.symm⟩

theorem reads_u_cases {n : Nat} (h : (u n).Reads p v) :
    n ≤ 32 ∧ p.length = n ∧ v = BitVec.ofNat 32 (ofBits p) := by
  have hparse := h []
  rw [append_nil, u, parse] at hparse
  split at hparse
  · next hn =>
    obtain ⟨hv, hdrop⟩ := Prod.mk.inj (some.inj hparse)
    have hlen : p.length = n := by
      have hle := drop_eq_nil_iff.mp hdrop
      omega
    rw [take_of_length_le (by omega)] at hv
    exact ⟨hn.2, hlen, hv.symm⟩
  · cases hparse

theorem reads_ue_cases (h : ue.Reads p v) : p = golombBits v.toNat ∧ v.toNat + 1 < 2 ^ 32 := by
  have hparse := h []
  rw [append_nil, ue, parse] at hparse
  split at hparse
  · next w l hcode =>
    obtain ⟨rfl, rfl⟩ := Prod.mk.inj (some.inj hparse)
    obtain ⟨hp, hv⟩ := parseGolomb_eq_some hcode
    exact ⟨by rw [hp, append_nil], hv⟩
  · cases hparse

/-! ## Reading -/

theorem length_parse_le (h : f.parse l = some (a, r)) :
    r.length ≤ l.length := by
  obtain ⟨p, hp, -⟩ := reads_of_parse h
  rw [hp, length_append]
  omega

/-- The end of a format, counted from a buffer that moved on already. -/
theorem map_advance (f : Fields α) {k : Nat} (hk : k + l.length = b.rest.length) :
    (f.parse l).map (fun r => (r.1, (b.advance k).advance (l.length - r.2.length))) =
      (f.parse l).map fun r => (r.1, b.advance (b.rest.length - r.2.length)) := by
  cases hparse : f.parse l with
  | none => rfl
  | some r =>
    have hle := length_parse_le hparse
    have hmove : k + (l.length - r.2.length) = b.rest.length - r.2.length := by omega
    simp only [map_some, advance_advance, hmove]

/-- Reading is parsing what is left of the buffer. -/
theorem read_eq (f : Fields α) (b : BitBuffer) :
    f.read b = (f.parse b.rest).map fun r => (r.1, b.advance (b.rest.length - r.2.length)) := by
  induction f generalizing b with
  | done a => simp [read, parse, advance_zero]
  | fail => rfl
  | bits n next ih =>
    simp only [read, parse, readBits_eq]
    by_cases hn : n ≤ b.rest.length ∧ n ≤ 32
    · rw [if_pos hn, if_pos hn, ← map_advance _ (k := n) (by simp; omega), ← rest_advance]
      exact ih _ _
    · rw [if_neg hn, if_neg hn]
      rfl
  | golomb next ih =>
    simp only [read, parse, readExponentialGolomb_eq]
    cases hcode : parseGolomb b.rest with
    | none => rfl
    | some r =>
      obtain ⟨v, l⟩ := r
      obtain ⟨hrest, -⟩ := parseGolomb_eq_some hcode
      have hlen : b.rest.length - l.length + l.length = b.rest.length := by
        rw [hrest]
        simp
      have hdrop : (b.advance (b.rest.length - l.length)).rest = l :=
        rest_advance_of_append hrest (by simp [hrest])
      have hnext := ih v (b.advance (b.rest.length - l.length))
      rw [hdrop, map_advance _ hlen] at hnext
      exact hnext

theorem read_of_reads (h : f.Reads p a) (hb : b.rest = p ++ r) :
    f.read b = some (a, b.advance p.length) := by
  rw [read_eq, hb, h r]
  simp

theorem reads_of_read {b' : BitBuffer} (h : f.read b = some (a, b')) :
    ∃ p r, b.rest = p ++ r ∧ f.Reads p a ∧ b' = b.advance p.length := by
  rw [read_eq] at h
  obtain ⟨⟨_, r⟩, hparse, heq⟩ := map_eq_some_iff.mp h
  cases heq
  obtain ⟨p, hp, hreads⟩ := reads_of_parse hparse
  refine ⟨p, r, hp, hreads, ?_⟩
  rw [hp]
  simp

/-! ## Copying -/

/-- The bits of a field that was read are those of its value. -/
theorem bits_ofNat_ofBits {n : Nat} (hn : n ≤ 32) (hp : p.length = n) :
    BitStream.bits n ((BitVec.ofNat 32 (ofBits p)).setWidth 64).toNat = p := by
  have hlt := ofBits_lt p
  have hpow : 2 ^ n ≤ 2 ^ 32 := Nat.pow_le_pow_right (by decide) hn
  rw [hp] at hlt
  have hval : ((BitVec.ofNat 32 (ofBits p)).setWidth 64).toNat = ofBits p := by
    rw [BitVec.toNat_setWidth, BitVec.toNat_ofNat, Nat.mod_eq_of_lt (by omega),
      Nat.mod_eq_of_lt (by omega)]
  rw [hval, ← hp, bits_ofBits]

/-- Fields that are copied are copied bit for bit. -/
theorem copy_some {s w s' w' : BitBuffer} (h : f.copy s w = some (a, s', w')) :
    ∃ p r, s.rest = p ++ r ∧ f.Reads p a ∧ s' = s.advance p.length ∧ Wrote w p w' := by
  induction f generalizing s w with
  | done b =>
    cases h
    exact ⟨[], _, rfl, reads_done _, (advance_zero _).symm, Wrote.refl _⟩
  | fail => cases h
  | bits n next ih =>
    obtain ⟨⟨v, s₁⟩, hread, h⟩ := bind_eq_some_iff.mp h
    obtain ⟨⟨_, w₁⟩, hwrite, h⟩ := bind_eq_some_iff.mp h
    obtain ⟨hn, p, r, hp, hlen, rfl, rfl⟩ := readBits_some hread
    obtain ⟨-, hfirst⟩ := writeBits_some (by omega) hwrite
    obtain ⟨q, r', hq, hreads, rfl, hwrote⟩ := ih _ h
    rw [bits_ofNat_ofBits hn hlen] at hfirst
    rw [rest_advance_of_append hp hlen] at hq
    refine ⟨p ++ q, r', ?_, reads_bits hn hlen hreads, ?_, hfirst.trans hwrote⟩
    · rw [hp, hq, append_assoc]
    · rw [advance_advance, length_append, hlen]
  | golomb next ih =>
    obtain ⟨⟨v, s₁⟩, hread, h⟩ := bind_eq_some_iff.mp h
    obtain ⟨⟨_, w₁⟩, hwrite, h⟩ := bind_eq_some_iff.mp h
    obtain ⟨r, hp, hv, rfl⟩ := readExponentialGolomb_some hread
    obtain ⟨-, -, hfirst⟩ := writeExponentialGolomb_some hwrite
    obtain ⟨q, r', hq, hreads, rfl, hwrote⟩ := ih _ h
    rw [rest_advance_of_append hp rfl] at hq
    refine ⟨golombBits v.toNat ++ q, r', ?_, reads_golomb hv hreads, ?_, hfirst.trans hwrote⟩
    · rw [hp, hq, append_assoc]
    · rw [advance_advance, length_append]

/-- Fields that are at the front of the source are copied if the destination has room for them. -/
theorem copy_of_reads (h : f.Reads p a) {s w : BitBuffer}
    (hs : s.rest = p ++ r) (hw : p.length ≤ w.rest.length) :
    ∃ w', f.copy s w = some (a, s.advance p.length, w') ∧ Wrote w p w' := by
  induction f generalizing p s w with
  | done b =>
    have hparse := h []
    rw [append_nil] at hparse
    cases hparse
    exact ⟨w, by rw [copy, length_nil, advance_zero], Wrote.refl w⟩
  | fail => cases h []
  | bits n next ih =>
    obtain ⟨p₁, q, v, rfl, hfield, hnext⟩ := reads_bind_cases (f := u n) (g := next) h
    obtain ⟨hn, hlen, rfl⟩ := reads_u_cases hfield
    rw [append_assoc] at hs
    rw [length_append, hlen] at hw
    obtain ⟨w₁, hwrite, hfirst⟩ := writeBits_ok ((BitVec.ofNat 32 (ofBits p₁)).setWidth 64)
      (n := n) (by omega) (w := w) (by omega)
    rw [bits_ofNat_ofBits hn hlen] at hfirst
    obtain ⟨w', hcopy, hwrote⟩ := ih _ hnext (s := s.advance n) (w := w₁)
      (rest_advance_of_append hs hlen)
      (by rw [hfirst.length_rest, hlen]; omega)
    refine ⟨w', ?_, hfirst.trans hwrote⟩
    simp only [copy, readBits_ok hn hlen hs, bind_eq_bind, bind_some, hwrite]
    rw [length_append, hlen, ← advance_advance]
    exact hcopy
  | golomb next ih =>
    obtain ⟨p₁, q, v, rfl, hfield, hnext⟩ := reads_bind_cases (f := ue) (g := next) h
    obtain ⟨rfl, hv⟩ := reads_ue_cases hfield
    rw [append_assoc] at hs
    rw [length_append] at hw
    obtain ⟨w₁, hwrite, hfirst⟩ := writeExponentialGolomb_ok hv (w := w) (by omega)
    obtain ⟨w', hcopy, hwrote⟩ := ih _ hnext (s := s.advance (golombBits v.toNat).length) (w := w₁)
      (rest_advance_of_append hs rfl)
      (by rw [hfirst.length_rest]; omega)
    refine ⟨w', ?_, hfirst.trans hwrote⟩
    simp only [copy, readExponentialGolomb_ok hv hs, bind_eq_bind, bind_some, hwrite]
    rw [length_append, ← advance_advance]
    exact hcopy

end Fields

end WebRtc.Bits
