import WebRtc.Video.FrameBuffer

/-! The order of frame keys. `FrameKey::operator<` is antisymmetric and total on all
keys, and transitive on the keys of one window of picture ids. -/

namespace WebRtc.Video.Frames
open SequenceNumber OrderedMap List

variable {S : FrameKey → Prop} {a b : FrameKey}

/-- The picture ids of the keys in `S` lie within a window of `2 ^ 15` ids. -/
def InWindow (S : FrameKey → Prop) : Prop :=
  ∃ base : BitVec 16, ∀ k, S k → (k.pictureId - base).toNat < 2 ^ 15

/-- The oldest key of a list can serve as the start of its window. -/
theorem inWindow_iff (k : FrameKey) (l : List FrameKey) :
    InWindow (· ∈ k :: l) ↔ ((k :: l).any fun b => (k :: l).all fun j =>
      (j.pictureId - b.pictureId).toNat < 2 ^ 15) := by
  simp only [any_eq_true, all_eq_true, decide_eq_true_eq]
  constructor
  · rintro ⟨base, hbase⟩
    obtain ⟨b, hb, hmin⟩ : ∃ b ∈ k :: l, ∀ j ∈ k :: l,
        (b.pictureId - base).toNat ≤ (j.pictureId - base).toNat := by
      clear hbase
      induction l generalizing k with
      | nil => exact ⟨k, .head _, fun j hj => by rw [mem_singleton.mp hj]⟩
      | cons a l ih =>
        obtain ⟨b, hb, hmin⟩ := ih a
        rcases Nat.le_total (k.pictureId - base).toNat (b.pictureId - base).toNat with hle | hle
        · exact ⟨k, .head _, forall_mem_cons.mpr
            ⟨Nat.le_refl _, fun j hj => Nat.le_trans hle (hmin j hj)⟩⟩
        · exact ⟨b, .tail _ hb, forall_mem_cons.mpr ⟨hle, hmin⟩⟩
    refine ⟨b, hb, fun j hj => ?_⟩
    have hj' := hbase j hj
    have hle := hmin j hj
    bv_omega
  · rintro ⟨b, -, hb⟩
    exact ⟨b.pictureId, hb⟩

instance (k : FrameKey) (l : List FrameKey) : Decidable (InWindow (· ∈ k :: l)) :=
  decidable_of_iff' _ (inWindow_iff k l)

theorem InWindow.mono {T : FrameKey → Prop} (h : InWindow S) (hsub : ∀ k, T k → S k) : InWindow T :=
  h.imp fun _ hb k hk => hb k (hsub k hk)

theorem FrameKey.lt_iff (a b : FrameKey) : a.lt b ↔
      (a.pictureId = b.pictureId ∧ a.spatialLayer.toNat < b.spatialLayer.toNat) ∨
        (a.pictureId ≠ b.pictureId ∧ aheadOf b.pictureId a.pictureId) := by
  unfold FrameKey.lt
  split
  · next h => simp [h, BitVec.ult]
  · next h => simp [h]

theorem FrameKey.lt_irrefl (a : FrameKey) : a.lt a = false := by
  simp [FrameKey.lt, BitVec.ult]

/-- Of two different keys exactly one is less than the other. -/
theorem FrameKey.lt_swap (h : a ≠ b) : b.lt a = !a.lt b := by
  unfold FrameKey.lt
  by_cases hp : a.pictureId = b.pictureId
  · have hs : a.spatialLayer ≠ b.spatialLayer := fun hs =>
      h (by cases a; cases b; cases hp; cases hs; rfl)
    rw [if_pos hp, if_pos hp.symm, BitVec.ult, BitVec.ult]
    have : a.spatialLayer.toNat ≠ b.spatialLayer.toNat := fun he => hs (BitVec.eq_of_toNat_eq he)
    rw [← decide_not, decide_eq_decide]
    omega
  · rw [if_neg hp, if_neg (Ne.symm hp)]
    exact aheadOf_swap _ _ (Ne.symm hp)

theorem FrameKey.lt_asymm (h : a.lt b) : b.lt a = false := by
  by_cases he : a = b
  · rw [he, FrameKey.lt_irrefl] at h; cases h
  · rw [FrameKey.lt_swap he, h]; rfl

theorem FrameKey.lt_of_not_lt (hne : a ≠ b) (h : b.lt a = false) : a.lt b := by
  rw [FrameKey.lt_swap (Ne.symm hne), h]; rfl

theorem FrameKey.ne_of_lt (h : a.lt b) : b ≠ a := by
  rintro rfl
  rw [FrameKey.lt_irrefl] at h
  cases h

theorem FrameKey.le_iff (a b : FrameKey) : a.le b ↔ a.lt b ∨ a = b := by
  unfold FrameKey.le
  by_cases h : a = b
  · simp [h, FrameKey.lt_irrefl]
  · rw [FrameKey.lt_swap h, Bool.not_not]
    simp [h]

/-- The place of a key in a window that starts at `base`. -/
def FrameKey.rank (base : BitVec 16) (k : FrameKey) : Nat :=
  (k.pictureId - base).toNat * 256 + k.spatialLayer.toNat

theorem FrameKey.lt_iff_rank {base : BitVec 16}
    (ha : (a.pictureId - base).toNat < 2 ^ 15) (hb : (b.pictureId - base).toNat < 2 ^ 15) :
    a.lt b ↔ a.rank base < b.rank base := by
  unfold FrameKey.lt FrameKey.rank
  split
  · next h =>
    rw [h, BitVec.ult, decide_eq_true_eq]
    omega
  rw [aheadOf_iff]
  have hne : (a.pictureId - base).toNat ≠ (b.pictureId - base).toNat := by bv_omega
  have hdiff : (b.pictureId - a.pictureId).toNat =
      ((b.pictureId - base).toNat + 65536 - (a.pictureId - base).toNat) % 65536 := by bv_omega
  omega

theorem InWindow.orderedOn (h : InWindow S) : OrderedOn FrameKey.lt S := by
  obtain ⟨_, hb⟩ := h
  refine ⟨fun a _ => a.lt_irrefl, ?_, ?_⟩
  · intro a b c ha hb' hc hab hbc
    rw [FrameKey.lt_iff_rank (hb a ha) (hb b hb')] at hab
    rw [FrameKey.lt_iff_rank (hb b hb') (hb c hc)] at hbc
    rw [FrameKey.lt_iff_rank (hb a ha) (hb c hc)]
    omega
  intro a b _ _ hne
  rw [FrameKey.lt_swap hne]
  cases a.lt b <;> simp

/-- A key between two keys of a window lies in the window. -/
theorem InWindow.between (h : InWindow S) {c : FrameKey} (ha : S a)
    (hc : S c) (hac : a.lt c) (hab : a.lt b) (hbc : b.lt c) :
    InWindow fun k => S k ∨ k = b := by
  obtain ⟨base, hb⟩ := h
  refine ⟨base, ?_⟩
  rintro k (hk | rfl)
  · exact hb k hk
  have hA := hb a ha
  have hC := hb c hc
  have hle : (a.pictureId - base).toNat ≤ (c.pictureId - base).toNat := by
    have hr := (FrameKey.lt_iff_rank hA hC).mp hac
    unfold FrameKey.rank at hr
    omega
  rcases (FrameKey.lt_iff _ _).mp hab with ⟨hp, -⟩ | ⟨-, hab⟩
  · rw [← hp]; exact hA
  rcases (FrameKey.lt_iff _ _).mp hbc with ⟨hp, -⟩ | ⟨-, hbc⟩
  · rw [hp]; exact hC
  rw [aheadOf_iff] at hab hbc
  have h1 : (k.pictureId - a.pictureId).toNat =
    ((k.pictureId - base).toNat + 65536 - (a.pictureId - base).toNat) % 65536 := by bv_omega
  have h2 : (c.pictureId - k.pictureId).toNat =
    ((c.pictureId - base).toNat + 65536 - (k.pictureId - base).toNat) % 65536 := by bv_omega
  by_contra hk
  have h5 : a.pictureId.toNat = c.pictureId.toNat := by bv_omega
  omega

/-- Nothing lies between a frame and the frame one layer below it. -/
theorem FrameObject.lowerLayer_le {f : FrameObject} {l : FrameKey}
    (h : l.lt f.key) (hle : f.lowerLayer.le l) : f.lowerLayer = l := by
  rcases (FrameKey.le_iff _ _).mp hle with hlt | he
  · exfalso
    rcases (FrameKey.lt_iff _ _).mp h with ⟨hp, hl⟩ | ⟨hp, ha⟩ <;>
      rcases (FrameKey.lt_iff _ _).mp hlt with ⟨hp', hl'⟩ | ⟨hp', ha'⟩ <;>
      simp only [FrameObject.key, FrameObject.lowerLayer] at *
    · bv_omega
    · exact hp' hp.symm
    · exact hp hp'.symm
    · rw [aheadOf_swap _ _ hp, ha'] at ha
      cases ha
  · exact he

theorem FrameObject.lowerLayer_lt {f : FrameObject} (hf : f.spatialLayer ≠ 0) :
    f.lowerLayer.lt f.key := by
  refine (FrameKey.lt_iff _ _).mpr (.inl ⟨rfl, ?_⟩)
  simp only [FrameObject.key, FrameObject.lowerLayer]
  bv_omega

end WebRtc.Video.Frames
