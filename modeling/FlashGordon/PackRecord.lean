import FlashGordon.PackWriter
import FlashGordon.TopologyAssign
import Mathlib.Data.Nat.Prime.Basic

/-!
The records of a pack. A piece of a tensor holds the bytes that the storage check derives from its record: for a
common tensor at once, for a routed tensor because a rank has all experts of a layer or a quarter of them, and
either number of experts is whole blocks.
-/

namespace FlashGordon.Pack

open SealedManifest Checks Cooked Function

theorem countElements_append {elements : UInt64} {widths : List UInt64} {width : UInt64} :
    countElements elements (widths ++ [width]) = (countElements elements widths).bind fun total =>
      if width = 0 ∨ total > u64Max / width then none else some (total * width) := by
  induction widths generalizing elements with
  | nil => rfl
  | cons w rest ih =>
    rw [List.cons_append, countElements, countElements]
    split
    · rfl
    · exact ih

theorem take_shape {dims : UInt32} (hdims : ¬(dims = 0 ∨ dims > 4)) (shape : Fin 4 → UInt64) :
    ∃ widths, ∀ width, (List.ofFn (update shape (lastDim dims) width)).take dims.toNat = widths ++ [width] := by
  have hlt : dims.toNat ≠ 0 ∧ dims.toNat ≤ 4 := by
    rw [not_or, gt_iff_lt, UInt32.not_lt, UInt32.le_iff_toNat_le] at hdims
    exact ⟨fun h => hdims.1 (UInt32.toNat_inj.mp h), hdims.2⟩
  have hcases : dims.toNat = 1 ∨ dims.toNat = 2 ∨ dims.toNat = 3 ∨ dims.toNat = 4 := by omega
  rcases hcases with h | h | h | h
  · exact ⟨[], fun width => by simp [lastDim, h, List.ofFn_succ, update]⟩
  · exact ⟨[shape 0], fun width => by simp [lastDim, h, List.ofFn_succ, update]⟩
  · exact ⟨[shape 0, shape 1], fun width => by simp [lastDim, h, List.ofFn_succ, update]⟩
  · exact ⟨[shape 0, shape 1, shape 2], fun width => by simp [lastDim, h, List.ofFn_succ, update]⟩

theorem ggufTypeLayout_cases {type : UInt32} {block blockBytes : UInt64}
    (h : ggufTypeLayout type = some (block, blockBytes)) :
    block.toNat ∣ 128 ∨ (block.toNat = 256 ∧ ¬ 256 ∣ blockBytes.toNat) := by
  unfold ggufTypeLayout at h
  split at h <;> simp only [Option.some.injEq, Prod.mk.injEq, reduceCtorEq] at h
  all_goals
    obtain ⟨rfl, rfl⟩ := h
    decide

theorem le_div_iff {a b : UInt64} (hb : b ≠ 0) : a ≤ u64Max / b ↔ a.toNat * b.toNat < 2 ^ 64 := by
  have hpos : 0 < b.toNat := Nat.pos_of_ne_zero fun h => hb (UInt64.toNat_inj.mp h)
  have hmax : u64Max.toNat = 2 ^ 64 - 1 := by decide
  rw [UInt64.le_iff_toNat_le, UInt64.toNat_div, hmax, Nat.le_div_iff_mul_le hpos]
  omega

theorem ggufTensorBytes_iff {type dims : UInt32} {shape : Fin 4 → UInt64} {bytes : UInt64} :
    ggufTensorBytes type dims shape = some bytes ↔ ¬(dims = 0 ∨ dims > 4) ∧ ∃ elements block blockBytes,
      countElements 1 ((List.ofFn shape).take dims.toNat) = some elements ∧
        ggufTypeLayout type = some (block, blockBytes) ∧ block.toNat ∣ elements.toNat ∧
          elements.toNat / block.toNat * blockBytes.toNat = bytes.toNat := by
  rw [ggufTensorBytes]
  split
  · exact ⟨fun h => (by cases h), fun h => absurd ‹_› h.1⟩
  next hdims =>
    simp only [Option.bind_eq_bind, Option.bind_eq_some_iff, Prod.exists]
    refine (and_iff_right_iff_imp.mpr fun _ => hdims).symm.trans (and_congr_right fun _ => ?_)
    refine exists_congr fun elements => ⟨?_, ?_⟩
    · rintro ⟨hcount, block, blockBytes, hlayout, h⟩
      split at h
      · cases h
      next hmod =>
        split at h
        · cases h
        next hfit =>
          obtain ⟨-, hne⟩ := ggufTypeLayout_pos hlayout
          have hprod := toNat_mul_of_le (UInt64.not_lt.mp hfit)
          refine ⟨block, blockBytes, hcount, hlayout, Nat.dvd_of_mod_eq_zero ?_, hprod.symm.trans ?_⟩
          · rw [← UInt64.toNat_mod, not_not.mp hmod]
            rfl
          · rw [Option.some.inj h]
    · rintro ⟨block, blockBytes, hcount, hlayout, hdvd, hbytes⟩
      refine ⟨hcount, block, blockBytes, hlayout, ?_⟩
      obtain ⟨-, hne⟩ := ggufTypeLayout_pos hlayout
      have hmod : elements % block = 0 := by
        rw [← UInt64.toNat_inj, UInt64.toNat_mod]
        exact Nat.mod_eq_zero_of_dvd hdvd
      have hfit : elements / block ≤ u64Max / blockBytes := by
        rw [le_div_iff hne, UInt64.toNat_div, hbytes]
        exact bytes.toNat_lt
      rw [if_neg (not_not.mpr hmod), if_neg (UInt64.not_lt.mpr hfit), Option.some.injEq, ← UInt64.toNat_inj,
        toNat_mul_of_le hfit, UInt64.toNat_div, hbytes]

/-- The numbers of experts a rank can have of a layer: all of them, or a quarter. -/
def Share (n : Nat) : Prop := n = 128 ∨ n = 512

theorem share_blocks {width block blockBytes n : Nat} (hshare : Share n)
    (hblock : block ∣ 128 ∨ (block = 256 ∧ ¬ 256 ∣ blockBytes)) (hdvd : block ∣ width * 512)
    (hexpert : 512 ∣ width * 512 / block * blockBytes) :
    block ∣ width * n ∧ width * n / block * blockBytes = width * 512 / block * blockBytes / 512 * n := by
  rcases hshare with rfl | rfl
  · have hquarter : block ∣ width * 128 := by
      rcases hblock with h128 | ⟨rfl, hodd⟩
      · exact Dvd.dvd.mul_left h128 width
      · have heven : 2 ∣ width := by
          by_contra hwidth
          have hcoprime : Nat.Coprime 256 width := by
            have h2 : Nat.Coprime 2 width := Nat.prime_two.coprime_iff_not_dvd.mpr hwidth
            exact Nat.Coprime.pow_left 8 h2
          have hdiv : width * 512 / 256 = 2 * width := by omega
          rw [hdiv, Nat.mul_assoc] at hexpert
          exact hodd (hcoprime.dvd_of_dvd_mul_left (Nat.dvd_of_mul_dvd_mul_left (by decide) hexpert))
        omega
    refine ⟨hquarter, ?_⟩
    obtain ⟨q, hq⟩ := hquarter
    obtain ⟨p, hp⟩ := hexpert
    have hpos : 0 < block := by
      rcases hblock with h | ⟨rfl, -⟩
      · exact Nat.pos_of_dvd_of_pos h (by decide)
      · decide
    have hfour : width * 512 / block = 4 * q := by
      have : width * 512 = block * (4 * q) := by rw [show width * 512 = 4 * (width * 128) by omega, hq]; ring
      rw [this, Nat.mul_div_cancel_left _ hpos]
    rw [hfour] at hp ⊢
    rw [hq, Nat.mul_div_cancel_left _ hpos, hp, Nat.mul_div_cancel_left _ (by decide)]
    have : 4 * (q * blockBytes) = 4 * (p * 128) := by rw [← Nat.mul_assoc, hp]; ring
    omega
  · exact ⟨hdvd, by rw [Nat.div_mul_cancel hexpert]⟩

def GgufTensor.expertBytes (t : GgufTensor) : UInt64 := t.bytes / 512

/-- A tensor `pack_expert_tensor` takes: its last dimension counts the experts, and an expert is whole bytes. -/
structure GgufTensor.Routed (t : GgufTensor) : Prop where
  experts : t.shape (lastDim t.dims) = 512
  whole : t.bytes % 512 = 0

variable {t : GgufTensor}

theorem GgufTensor.Routed.bytes_eq (h : t.Routed) : t.bytes.toNat = t.expertBytes.toNat * 512 := by
  have hmod : t.bytes.toNat % 512 = 0 := by
    have := congrArg UInt64.toNat h.whole
    rwa [UInt64.toNat_mod] at this
  have hdiv : t.expertBytes.toNat = t.bytes.toNat / 512 := UInt64.toNat_div ..
  omega

theorem GgufTensor.Routed.share_lt (h : t.Routed) {n : Nat} (hshare : Share n) : t.expertBytes.toNat * n < 2 ^ 64 := by
  have hlt := t.bytes.toNat_lt
  rw [h.bytes_eq] at hlt
  rcases hshare with rfl | rfl <;> omega

theorem share_word {n : Nat} (hshare : Share n) : (UInt64.ofNat n).toNat = n ∧ UInt64.ofNat n ≠ 0 := by
  rcases hshare with rfl | rfl <;> decide

theorem ggufTensorBytes_share (h : t.Routed) {n : Nat} (hshare : Share n) :
    ggufTensorBytes t.type t.dims (update t.shape (lastDim t.dims) (.ofNat n)) =
      some (t.expertBytes * .ofNat n) := by
  obtain ⟨hword, hne⟩ := share_word hshare
  obtain ⟨hdims, elements, block, blockBytes, hcount, hlayout, hdvd, hbytes⟩ := ggufTensorBytes_iff.mp t.sized
  obtain ⟨widths, htake⟩ := take_shape hdims t.shape
  have hshape : (List.ofFn t.shape).take t.dims.toNat = widths ++ [512] := by
    rw [← htake, ← h.experts, update_eq_self]
  rw [hshape, countElements_append] at hcount
  obtain ⟨width, hwidth, hcount⟩ := Option.bind_eq_some_iff.mp hcount
  split at hcount
  · cases hcount
  next hfit =>
    have hfit' := UInt64.not_lt.mp (not_or.mp hfit).2
    have helements : elements.toNat = width.toNat * 512 := by
      rw [← Option.some.inj hcount, toNat_mul_of_le hfit']
      rfl
    rw [helements] at hdvd hbytes
    have hwhole : 512 ∣ width.toNat * 512 / block.toNat * blockBytes.toNat := by
      rw [hbytes, h.bytes_eq]
      exact Nat.dvd_mul_left 512 _
    obtain ⟨hblocks, hshares⟩ := share_blocks hshare (ggufTypeLayout_cases hlayout) hdvd hwhole
    have hsmall : width ≤ u64Max / .ofNat n := by
      rw [le_div_iff hne, hword]
      have hlt := (le_div_iff (by decide)).mp hfit'
      have h512 : (512 : UInt64).toNat = 512 := rfl
      rw [h512] at hlt
      rcases hshare with rfl | rfl <;> omega
    refine ggufTensorBytes_iff.mpr ⟨hdims, width * .ofNat n, block, blockBytes, ?_, hlayout, ?_, ?_⟩
    · rw [htake, countElements_append, hwidth, Option.bind_some]
      exact if_neg (not_or.mpr ⟨hne, UInt64.not_lt.mpr hsmall⟩)
    · rw [toNat_mul_of_le hsmall, hword]
      exact hblocks
    · rw [toNat_mul_of_le hsmall, hword, hshares, hbytes, UInt64.toNat_mul, hword, Nat.mod_eq_of_lt (h.share_lt hshare)]
      rfl

theorem countElements_toNat {elements total : UInt64} {widths : List UInt64}
    (h : countElements elements widths = some total) :
    total.toNat = elements.toNat * (widths.map UInt64.toNat).prod := by
  induction widths generalizing elements with
  | nil => rw [List.map_nil, List.prod_nil, Nat.mul_one, Option.some.inj h]
  | cons width rest ih =>
    rw [countElements] at h
    split at h
    · cases h
    next hfit =>
      rw [ih h, toNat_mul_of_le (UInt64.not_lt.mp (not_or.mp hfit).2), List.map_cons, List.prod_cons, Nat.mul_assoc]

theorem narrow_word {x : UInt64} (h : x ≤ u32Max) : x.toUInt32.toUInt64 = x ∧ x.toUInt32.toNat = x.toNat := by
  have hlt : x.toNat < 2 ^ 32 := Nat.lt_of_le_of_lt (UInt64.le_iff_toNat_le.mp h) (by decide)
  have hnat : x.toUInt32.toNat = x.toNat := by
    rw [UInt64.toNat_toUInt32]
    exact Nat.mod_eq_of_lt hlt
  exact ⟨UInt64.toNat_inj.mp (by rw [UInt32.toNat_toUInt64, hnat]), hnat⟩

theorem routed_bytes (h : t.Routed) (hdims : t.dims = 3) {block blockBytes : UInt64}
    (hlayout : ggufTypeLayout t.type = some (block, blockBytes)) :
    (t.shape 0).toNat * (t.shape 1).toNat * 512 / block.toNat * blockBytes.toNat = t.expertBytes.toNat * 512 := by
  obtain ⟨-, elements, block', blockBytes', hcount, hlayout', -, hbytes⟩ := ggufTensorBytes_iff.mp t.sized
  obtain ⟨rfl, rfl⟩ := Prod.mk.inj (Option.some.inj (hlayout.symm.trans hlayout'))
  have hlast : t.shape 2 = 512 := by
    have := h.experts
    rwa [hdims] at this
  have htake : (List.ofFn t.shape).take t.dims.toNat = [t.shape 0, t.shape 1, 512] := by
    rw [hdims, ← hlast]
    simp [List.ofFn_succ]
  have helements : elements.toNat = (t.shape 0).toNat * (t.shape 1).toNat * 512 := by
    rw [htake] at hcount
    rw [countElements_toNat hcount]
    simp [Nat.mul_assoc]
  rw [← helements, hbytes, h.bytes_eq]

theorem expert_of_blocks {block a rows blockBytes bytes : Nat} (hpos : 0 < block)
    (h : block * a * rows * 512 / block * blockBytes = bytes * 512) : rows * a * blockBytes = bytes := by
  have hgroup : block * a * rows * 512 = block * (a * rows * 512) := by ring
  rw [hgroup, Nat.mul_div_cancel_left _ hpos] at h
  have hscaled : rows * a * blockBytes * 512 = bytes * 512 := by rw [← h]; ring
  exact Nat.eq_of_mul_eq_mul_right (by decide) hscaled

def GgufTensor.matrix (t : GgufTensor) (layout : UInt8) : UInt64 :=
  if layout = layoutKQuantExpertCooked then kQuantCookedMatrixBytes (t.shape 0) (t.shape 1) t.type
  else if layout = layoutQ51ExpertCooked then q51CookedMatrixBytes (t.shape 0) (t.shape 1)
  else q8CookedMatrixBytes (t.shape 0) (t.shape 1)

theorem expertLayout_cooked (h : t.Routed) (hcooked : expertLayout t ≠ layoutGgml) :
    t.dims = 3 ∧ t.shape 0 ≤ u32Max ∧ t.shape 1 ≤ u32Max ∧
      ((expertLayout t = layoutKQuantExpertCooked ∧ (t.type = 12 ∨ t.type = 13)) ∨
        expertLayout t = layoutQ51ExpertCooked ∨ (expertLayout t = layoutQ8ExpertCooked ∧ t.type = 8)) ∧
      t.matrix (expertLayout t) = t.expertBytes := by
  rw [expertLayout] at hcooked ⊢
  split at hcooked
  · exact absurd rfl hcooked
  next hnarrow =>
    obtain ⟨hdims, hwidth, hrows⟩ : _ ∧ _ ∧ _ := by simpa only [not_or, not_not, gt_iff_lt, UInt64.not_lt] using hnarrow
    obtain ⟨hword, hnat⟩ := narrow_word hwidth
    obtain ⟨hword', hnat'⟩ := narrow_word hrows
    rw [if_neg hnarrow]
    refine ⟨hdims, hwidth, hrows, ?_⟩
    split
    next hk =>
      obtain ⟨htype, hne⟩ := hk
      refine ⟨.inl ⟨rfl, htype⟩, UInt64.toNat_inj.mp ?_⟩
      rw [← hword, ← hword'] at hne
      obtain ⟨-, hplain, htile⟩ := kQuant_sized hne
      have hdvd : 256 ∣ (t.shape 0).toNat := by
        by_contra hnot
        refine htile (if_pos (.inr (.inr fun hzero => hnot ?_)))
        rw [hword, ← UInt64.toNat_inj, UInt64.toNat_mod] at hzero
        exact Nat.dvd_of_mod_eq_zero hzero
      obtain ⟨a, ha⟩ := hdvd
      rw [hword, hword', hnat, hnat', ha, Nat.mul_div_cancel_left _ (by decide)] at hplain
      rw [GgufTensor.matrix, if_pos rfl, ← hplain]
      have hlayout : ggufTypeLayout t.type = some (256, kQuantBlockBytes t.type) := by
        rcases htype with htype | htype <;> rw [htype] <;> rfl
      have hbytes := routed_bytes h hdims hlayout
      rw [ha] at hbytes
      exact expert_of_blocks (by decide) hbytes
    · split
      next hq =>
        obtain ⟨htype, hne⟩ := hq
        refine ⟨.inr (.inl rfl), UInt64.toNat_inj.mp ?_⟩
        rw [← hword, ← hword'] at hne
        obtain ⟨-, hplain, htile⟩ := q51_sized hne
        have hdvd : 32 ∣ (t.shape 0).toNat := by
          by_contra hnot
          refine htile (if_pos (.inr fun hzero => hnot ?_))
          rw [hword, ← UInt64.toNat_inj, UInt64.toNat_mod] at hzero
          exact Nat.dvd_of_mod_eq_zero hzero
        obtain ⟨a, ha⟩ := hdvd
        rw [hword, hword', hnat, hnat', ha, Nat.mul_div_cancel_left _ (by decide)] at hplain
        rw [GgufTensor.matrix, if_neg (by decide), if_pos rfl, ← hplain]
        have hbytes := @routed_bytes t h hdims 32 24 (by rw [htype]; rfl)
        rw [ha] at hbytes
        exact expert_of_blocks (by decide) hbytes
      · split
        next hq =>
          obtain ⟨htype, hne, hraw⟩ := hq
          refine ⟨.inr (.inr ⟨rfl, htype⟩), UInt64.toNat_inj.mp ?_⟩
          obtain ⟨-, elements, block, blockBytes, hcount, hlayout, hdvd, hplain⟩ := ggufTensorBytes_iff.mp hraw
          have helements : elements.toNat = (t.shape 0).toNat * (t.shape 1).toNat := by
            rw [countElements_toNat hcount]
            simp [List.ofFn_succ]
          have hbytes := routed_bytes h hdims hlayout
          rw [GgufTensor.matrix, if_neg (by decide), if_neg (by decide), ← hplain]
          obtain ⟨a, ha⟩ := hdvd
          have hpos : 0 < block.toNat :=
            Nat.pos_of_ne_zero fun hzero => (ggufTypeLayout_pos hlayout).1 (UInt64.toNat_inj.mp hzero)
          rw [← helements, ha] at hbytes
          rw [ha, Nat.mul_div_cancel_left _ hpos]
          have hone : block.toNat * a * 1 * 512 / block.toNat * blockBytes.toNat = t.expertBytes.toNat * 512 := by
            rw [Nat.mul_one, hbytes]
          rw [← expert_of_blocks hpos hone, Nat.one_mul]
        next hk hq hq8 =>
          rw [if_neg hk, if_neg hq, if_neg hq8] at hcooked
          exact absurd rfl hcooked

/-! ## What the storage check derives from a record -/

theorem expectedBytes_opaque {r : TensorRecord} (h : r.kind = tensorTokenizer ∨ r.kind = tensorVision ∨ r.kind = tensorMtp)
    (hbytes : r.bytes ≠ 0) : expectedBytes r = .ok r.bytes := by
  rw [expectedBytes, if_pos h, if_neg hbytes]

theorem expectedBytes_plain {s : Segment} {digest : Digest} (hlayout : s.layout = layoutGgml)
    (hbytes : s.bytes = t.bytes) (hexperts : s.localExperts = 0) : expectedBytes (s.record t digest) = .ok s.bytes := by
  by_cases hkind : (s.record t digest).kind = tensorTokenizer ∨ (s.record t digest).kind = tensorVision ∨
      (s.record t digest).kind = tensorMtp
  · refine expectedBytes_opaque hkind ?_
    show s.bytes ≠ 0
    rw [hbytes]
    exact ggufTensorBytes_pos t.sized
  · have hggml : (s.record t digest).layout = layoutGgml := hlayout
    rw [expectedBytes, if_neg hkind, if_pos (.inl hggml)]
    simp only [Segment.record, hexperts, if_true]
    rw [t.sized, hbytes]

theorem expectedBytes_cooked {s : Segment} {digest : Digest} (hcooked : useCookedQ8 t = true)
    (hlayout : s.layout = layoutQ8Cooked) (hbytes : s.bytes = q8CookedMatrixBytes (t.shape 0) (t.shape 1))
    (hexperts : s.localExperts = 0) : expectedBytes (s.record t digest) = .ok s.bytes := by
  rw [useCookedQ8] at hcooked
  split at hcooked
  · cases hcooked
  next hgood =>
    obtain ⟨hne, -⟩ := of_decide_eq_true hcooked
    obtain ⟨-, hdims, hwidth, hrows, -⟩ : _ ∧ _ ∧ _ ∧ _ ∧ _ := by
      simpa only [not_or, ne_eq, not_not, gt_iff_lt, UInt64.not_lt] using hgood
    by_cases hkind : (s.record t digest).kind = tensorTokenizer ∨ (s.record t digest).kind = tensorVision ∨
        (s.record t digest).kind = tensorMtp
    · refine expectedBytes_opaque hkind ?_
      show s.bytes ≠ 0
      rwa [hbytes]
    · have hmatrix : (s.record t digest).cookedMatrix = q8CookedMatrixBytes (t.shape 0) (t.shape 1) := by
        simp only [TensorRecord.cookedMatrix, Segment.record, hlayout, hexperts, if_true, TensorRecord.Narrow]
        rw [if_neg (by decide), if_pos ⟨hdims, hwidth, hrows⟩]
      have hplain : ¬((s.record t digest).layout = layoutGgml ∨ (s.record t digest).layout = layoutHostQ8) := by
        simp only [Segment.record, hlayout]
        decide
      have hthree : (s.record t digest).dims ≠ 3 := by
        simp only [Segment.record, hdims]
        decide
      rw [expectedBytes, if_neg hkind, if_neg hplain, if_neg (hmatrix ▸ hne), if_neg hthree, hmatrix, hbytes]

theorem expectedBytes_expert {s : Segment} {digest : Digest} {n : Nat} (h : t.Routed) (hshare : Share n)
    (hkind : s.kind = tensorRoutedExpert) (hlayout : s.layout = expertLayout t)
    (hbytes : s.bytes = t.expertBytes * .ofNat n) (hexperts : s.localExperts = .ofNat n) :
    expectedBytes (s.record t digest) = .ok s.bytes := by
  obtain ⟨hword, hne⟩ := share_word hshare
  have hopaque : ¬((s.record t digest).kind = tensorTokenizer ∨ (s.record t digest).kind = tensorVision ∨
      (s.record t digest).kind = tensorMtp) := by
    simp only [Segment.record, hkind]
    decide
  have hshape : (s.record t digest).shape = update t.shape (lastDim t.dims) (.ofNat n) := by
    simp only [Segment.record, hexperts, if_neg hne]
  by_cases hplain : expertLayout t = layoutGgml
  · have hggml : (s.record t digest).layout = layoutGgml := hlayout.trans hplain
    rw [expectedBytes, if_neg hopaque, if_pos (.inl hggml), hshape]
    have hsized : ggufTensorBytes (s.record t digest).ggmlType (s.record t digest).dims
        (update t.shape (lastDim t.dims) (.ofNat n)) = some (t.expertBytes * .ofNat n) :=
      ggufTensorBytes_share h hshare
    rw [hsized, hbytes]
  · obtain ⟨hdims, hwidth, hrows, hcases, hmatrix⟩ := expertLayout_cooked h hplain
    have hlast : lastDim t.dims = 2 := by rw [hdims]; rfl
    have hshape0 : (s.record t digest).shape 0 = t.shape 0 := by rw [hshape, hlast]; rfl
    have hshape1 : (s.record t digest).shape 1 = t.shape 1 := by rw [hshape, hlast]; rfl
    have hshape2 : (s.record t digest).shape 2 = .ofNat n := by rw [hshape, hlast, update_self]
    have hlayout' : (s.record t digest).layout = expertLayout t := hlayout
    have hdims' : (s.record t digest).dims = 3 := hdims
    have htype : (s.record t digest).ggmlType = t.type := rfl
    have hnarrow : (s.record t digest).Narrow := ⟨hshape0 ▸ hwidth, hshape1 ▸ hrows⟩
    have hcooked : (s.record t digest).cookedMatrix = t.matrix (expertLayout t) := by
      rw [TensorRecord.cookedMatrix, GgufTensor.matrix, hlayout', hshape0, hshape1, hdims', htype]
      rcases hcases with ⟨heq, -⟩ | heq | ⟨heq, htype8⟩
      · rw [heq, if_neg (by decide), if_neg (by decide), if_pos rfl, if_pos ⟨rfl, hnarrow⟩, if_pos rfl]
      · rw [heq, if_neg (by decide), if_neg (by decide), if_neg (by decide), if_pos rfl, if_pos ⟨rfl, hnarrow⟩,
          if_neg (by decide), if_pos rfl]
      · rw [heq, if_neg (by decide), if_neg (by decide), if_neg (by decide), if_neg (by decide), if_pos rfl,
          if_pos ⟨rfl, htype8, hnarrow⟩, if_neg (by decide), if_neg (by decide)]
    rw [hmatrix] at hcooked
    have hnotplain : ¬((s.record t digest).layout = layoutGgml ∨ (s.record t digest).layout = layoutHostQ8) := by
      rw [hlayout']
      rcases hcases with ⟨heq, -⟩ | heq | ⟨heq, -⟩ <;> rw [heq] <;> decide
    have hpos : t.expertBytes ≠ 0 := by
      intro hzero
      have hbytes' := h.bytes_eq
      rw [hzero] at hbytes'
      exact ggufTensorBytes_pos t.sized (UInt64.toNat_inj.mp (by simpa using hbytes'))
    have hfit : ¬((s.record t digest).shape 2 = 0 ∨
        (s.record t digest).cookedMatrix > u64Max / (s.record t digest).shape 2) := by
      rw [hshape2, hcooked, not_or, gt_iff_lt, UInt64.not_lt]
      refine ⟨hne, (le_div_iff hne).mpr ?_⟩
      rw [hword]
      exact h.share_lt hshare
    rw [expectedBytes, if_neg hopaque, if_neg hnotplain, if_neg (hcooked ▸ hpos), if_pos hdims', if_neg hfit, hcooked,
      hshape2, hbytes]

/-- What a layer of an accepted topology gives a pack: its owner and its group are ranks, every expert is with one of
the group, and each of them has a share. -/
structure Served (m : Manifest) (layer : Fin layerCount) : Prop where
  owner : (m.layerOwner layer).toNat < rankCount
  group : ∀ slot, (m.layerGroups layer slot).toNat < rankCount
  expert : ∀ expert, ∃ slot, (m.layerGroups layer slot).toNat = (m.expertRank layer expert).toNat
  share : ∀ slot, Share ((List.finRange expertCount).countP fun expert =>
    (m.expertRank layer expert).toNat = (m.layerGroups layer slot).toNat)

theorem served_of_topology {sha : List UInt8 → Digest} {m : Manifest} (h : topologyValidate sha m = .ok ())
    (layer : Fin layerCount) : Served m layer := by
  have hlayer : checkLayer m.layerOwner m.layerGroups m.expertRank layer = .ok () := by
    simp only [topologyValidate, bind_eq_ok, exists_unit, forM_eq_ok] at h
    exact h.2.2.1 layer (List.mem_finRange layer)
  by_cases hone : (distinctRanks (m.layerGroups layer)).length = 1
  · obtain ⟨rank, hdistinct⟩ := List.length_eq_one_iff.mp hone
    simp only [checkLayer, hdistinct, bind_eq_ok, exists_unit, refuse_eq_ok, forM_eq_ok, Nat.not_le, ne_eq,
      not_not] at hlayer
    obtain ⟨howner, hrank, hexperts⟩ := hlayer
    have hgroup (slot : Fin groupSize) : m.layerGroups layer slot = rank := by
      have hmem : rank ∈ List.ofFn (m.layerGroups layer) :=
        FirstSeen.mem_firstSeen.mp (by
          show rank ∈ distinctRanks (m.layerGroups layer)
          rw [hdistinct]
          exact List.mem_singleton_self rank)
      obtain ⟨other, hother⟩ := (List.mem_ofFn' _ _).mp hmem
      rw [groups_eq_of_distinctRanks hone slot other, hother]
    refine ⟨howner, fun slot => hgroup slot ▸ hrank, fun expert => ⟨⟨0, by decide⟩, ?_⟩, fun slot => .inr ?_⟩
    · rw [hgroup, hexperts expert (List.mem_finRange expert)]
    · rw [List.countP_eq_length.mpr fun expert hexpert => by
        rw [hgroup, hexperts expert hexpert]
        exact decide_eq_true rfl, List.length_finRange]
      rfl
  · obtain ⟨howner, hgroups, hexperts, hcounts⟩ := (checkLayer_split hone).mp hlayer
    refine ⟨howner, fun slot => Nat.not_le.mp (not_or.mp (hgroups slot)).1, fun expert => (hexperts expert).2,
      fun slot => .inl (hcounts slot)⟩

end FlashGordon.Pack
