import WebRtc.Base.SequenceNumberUnwrapper
import WebRtc.Video.ReferenceFinder

/-! Both unwrappers over whole runs. They keep the last number only, and follow a number that moves
by less than half a turn in each step. -/

namespace WebRtc.Video.ReferenceFinder
open List ModOps SequenceNumber.SequenceNumberUnwrapper
open SequenceNumber (SequenceNumberUnwrapper wrapped)

/-- What `Unwrap` returns for the numbers of a run. -/
def unwrapAll (u : SequenceNumberUnwrapper) : List (BitVec 16) → List Int
  | [] => []
  | n :: numbers => (u.unwrap n).2 :: unwrapAll (u.unwrap n).1 numbers

/-- What `UnwrapPictureId` returns for the picture ids of a run. -/
def unwrapPictureIds (s : Finder) : List Nat → List Nat
  | [] => []
  | id :: ids => (s.unwrapPictureId id).2 :: unwrapPictureIds (s.unwrapPictureId id).1 ids

/-- Two numbers in a row, less than `bound` apart. -/
def Near (bound t t' : Int) : Prop := t' - t < bound ∧ t - t' < bound

theorem unwrapAll_wrapped {ts : List Int} {u : SequenceNumberUnwrapper} (hlast : 0 ≤ u.lastSeq)
    (hpos : ∀ t ∈ ts, 0 ≤ t) (hchain : (u.lastSeq :: ts).IsChain (Near (2 ^ 15))) :
    unwrapAll u (ts.map wrapped) = ts := by
  induction ts generalizing u with
  | nil => rfl
  | cons t ts ih =>
    obtain ⟨hnear, hrest⟩ := isChain_cons_cons.mp hchain
    obtain ⟨ht, hts⟩ := forall_mem_cons.mp hpos
    have hstep : u.unwrap (wrapped t) = (⟨t⟩, t) := by
      rw [unwrap, unwrap_wrapped hlast ht hnear]
    rw [map_cons, unwrapAll, hstep, ih ht hts hrest]

/-- One step: the picture id has 15 bits of the number, and 16 bits are kept. -/
theorem unwrapPictureId_near {s : Finder} {t last : Int} (hs : s.lastUnwrap = last % 2 ^ 16)
    (hnear : Near (2 ^ 14) last t) : s.unwrapPictureId (t % 2 ^ 15).toNat =
      ({ s with lastUnwrap := t % 2 ^ 16 }, (t % 2 ^ 16).toNat) := by
  obtain ⟨hahead, hbehind⟩ := hnear
  have htrunc : uint16 (s.lastUnwrap % kPicIdLength) = (last % 2 ^ 15).toNat := by
    rw [uint16, BitVec.toNat_ofInt, hs, show (kPicIdLength : Int) = 2 ^ 15 from rfl]
    omega
  have hlong : ulong s.lastUnwrap = (last % 2 ^ 16).toNat := by
    rw [ulong, BitVec.toNat_ofInt, hs]
    omega
  have hresult : (s.unwrapPictureId (t % 2 ^ 15).toNat).2 = (t % 2 ^ 16).toNat := by
    simp only [Finder.unwrapPictureId, htrunc, hlong]
    simp only [show kPicIdLength = 32768 from rfl, Nat.reduceShiftLeft]
    have hdiff : ∀ x y : Int, forwardDiff 32768 (x % 2 ^ 15).toNat (y % 2 ^ 15).toNat =
        ((y - x) % 2 ^ 15).toNat := by
      intro x y
      unfold forwardDiff
      split <;> omega
    by_cases hlt : last < t
    · have hforward := hdiff last t
      obtain ⟨hnewer, hmin⟩ := ahead_of_near (m := 32768) (a := (last % 2 ^ 15).toNat)
        (b := (t % 2 ^ 15).toNat) (by omega) (by omega) (by omega)
      rw [if_pos hnewer, hmin, hforward, add]
      split <;> omega
    · have hback := hdiff t last
      obtain ⟨holder, hmin⟩ := behind_of_near (m := 32768) (a := (last % 2 ^ 15).toNat)
        (b := (t % 2 ^ 15).toNat) (by omega) (by omega) (by omega)
      rw [holder, if_neg Bool.false_ne_true, hmin, hback, subtract]
      split <;> omega
  have hkept : ((s.unwrapPictureId (t % 2 ^ 15).toNat).2 : Int) = t % 2 ^ 16 := by omega
  refine Prod.ext ?_ hresult
  rw [← hkept]
  rfl

theorem unwrapPictureIds_near {ts : List Int} {s : Finder} {last : Int}
    (hs : s.lastUnwrap = last % 2 ^ 16) (hchain : (last :: ts).IsChain (Near (2 ^ 14))) :
    unwrapPictureIds s (ts.map fun t => (t % 2 ^ 15).toNat) =
      ts.map fun t => (t % 2 ^ 16).toNat := by
  induction ts generalizing s last with
  | nil => rfl
  | cons t ts ih =>
    obtain ⟨hnear, hrest⟩ := isChain_cons_cons.mp hchain
    rw [map_cons, map_cons, unwrapPictureIds, unwrapPictureId_near hs hnear, ih rfl hrest]

/-- **Unwrapping follows the true numbers.** -/
theorem unwrapping_runs (t₀ : Int) (ts : List Int) (h₀ : 0 ≤ t₀ ∧ t₀ < 2 ^ 16)
    (hpos : ∀ t ∈ ts, 0 ≤ t) :
    ((t₀ :: ts).IsChain (Near (2 ^ 15)) → unwrapAll {} ((t₀ :: ts).map wrapped) = t₀ :: ts) ∧
      ∀ s : Finder, s.lastUnwrap = t₀ → (t₀ :: ts).IsChain (Near (2 ^ 14)) →
        unwrapPictureIds s (ts.map fun t => (t % 2 ^ 15).toNat) =
          ts.map fun t => (t % 2 ^ 16).toNat := by
  constructor
  · intro hchain
    have hfirst : ({} : SequenceNumberUnwrapper).unwrap (wrapped t₀) = (⟨t₀⟩, t₀) := by
      have hmod := SequenceNumber.toNat_wrapped t₀
      rw [unwrap, unwrap_first rfl, show ((wrapped t₀).toNat : Int) = t₀ by omega]
    rw [map_cons, unwrapAll, hfirst, unwrapAll_wrapped h₀.1 hpos hchain]
  · intro s hs hchain
    exact unwrapPictureIds_near (by omega) hchain

/-- A number that passes the turn and comes back. -/
theorem unwrapping_runs_turn :
    unwrapAll {} ([65535, 65540, 65530].map wrapped) = [65535, 65540, 65530] ∧
      ∀ s : Finder, s.lastUnwrap = 65535 → unwrapPictureIds s [4, 32762] = [4, 65530] := by
  obtain ⟨hnumbers, hids⟩ := unwrapping_runs 65535 [65540, 65530] (by decide) (by decide)
  exact ⟨hnumbers (by simp [Near]), fun s hs => hids s hs (by simp [Near])⟩

end WebRtc.Video.ReferenceFinder
