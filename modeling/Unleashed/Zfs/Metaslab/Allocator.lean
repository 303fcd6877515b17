import Unleashed.Zfs.RangeTree.Walk

/-!
# Block allocators (`metaslab.c`)

The four block allocators choose a range of `ms_allocatable` from a place that depends on a cursor. The rest of the
metaslab needs that a returned range lies inside one free segment and on a unit boundary. They add an offset and the
size in 64 bits; the results are about requests for which no sum wraps.
-/

namespace Unleashed.Zfs

open Lib Lib.Segs List Finset Function Nat

/-- `metaslab_rangesize_compare`: by size, then by start. -/
def metaslabRangesizeCompare (r1 r2 : Seg) : Ordering :=
  if len r1 < len r2 then .lt
  else if len r1 > len r2 then .gt
  else if r1.lo < r2.lo then .lt
  else if r1.lo > r2.lo then .gt
  else .eq

/-- `ms_allocatable_by_size`: the segments in the order of their sizes. -/
def allocatableBySize (rt : RangeTree) : List Seg :=
  rt.rtRoot.insertionSort fun r1 r2 => metaslabRangesizeCompare r1 r2 ≠ .gt

def metaslabBlockMaxsize (rt : RangeTree) : Nat :=
  match (allocatableBySize rt).getLast? with
  | none => 0
  | some rs => rs.hi - rs.lo

section

-- `hit` stands for the shape of the tree: it says which of several equal segments the search from
-- a start meets first
variable (compare : Seg → Seg → Ordering) (hit : Nat → Nat) (t : List Seg)

/-- `avl_find`, or `avl_nearest` with `AVL_AFTER` if there is none. -/
def avlFindOrAfter (rsearch : Seg) : Option Seg :=
  match avlFindHit compare (hit rsearch.lo) t rsearch with
  | some rs => some rs
  | none => t.find? fun rs => compare rsearch rs = .lt

def metaslabBlockFind (start size : Nat) : Option Seg :=
  avlFindOrAfter compare hit t ⟨start, (start + size) % 2 ^ 64⟩

/-- `P2ROUNDUP` for a power of two. -/
def p2roundup (x align : Nat) : Nat := (x + align - 1) / align * align

/-- The loop of `metaslab_block_picker` over the segments from `rs` on. -/
def metaslabBlockScan (size align : Nat) : List Seg → Option Nat
  | [] => none
  | rs :: rest =>
    let offset := p2roundup rs.lo align % 2 ^ 64
    if (offset + size) % 2 ^ 64 ≤ rs.hi then some offset else metaslabBlockScan size align rest

/-- The segments from the one that `metaslab_block_find` returns on. -/
def metaslabBlockFrom (cursor size : Nat) : List Seg :=
  match metaslabBlockFind compare hit t cursor size with
  | none => []
  | some rs => t.dropWhile fun s => s ≠ rs

/-- `metaslab_block_picker`: the offset and the cursor. It starts over once, from 0. -/
def metaslabBlockPicker (cursor size align : Nat) : Option Nat × Nat :=
  match metaslabBlockScan size align (metaslabBlockFrom compare hit t cursor size) with
  | some offset => (some offset, (offset + size) % 2 ^ 64)
  | none =>
    if cursor = 0 then (none, 0)
    else
      match metaslabBlockScan size align (metaslabBlockFrom compare hit t 0 size) with
      | some offset => (some offset, (offset + size) % 2 ^ 64)
      | none => (none, 0)

end

/-- The allocators of `metaslab_ops_t`. -/
inductive MetaslabOps | ff | df | cf | ndf
deriving DecidableEq, Repr

/-- The tunables that the allocators read. -/
structure MetaslabTunables where
  (metaslabDfAllocThreshold metaslabDfFreePct metaslabNdfClumpShift : Nat)

section
variable (tun : MetaslabTunables) (msSize : Nat) (rt : RangeTree) (hit lbas : Nat → Nat)
  (size : Nat)

/-- `size & -size`, the largest power of two that divides `size`. -/
def sizeAlign (size : Nat) : Nat := size &&& (2 ^ 64 - size)

/-- `metaslab_ff_alloc`: the offset, `none` for `-1ULL`, and the new `ms_lbas`. -/
def metaslabFfAlloc : Option Nat × (Nat → Nat) :=
  let align := sizeAlign size
  let bucket := highbit64 align - 1
  let (offset, cursor) :=
    metaslabBlockPicker rangeTreeSegCompare hit rt.rtRoot (lbas bucket) size align
  (offset, update lbas bucket cursor)

def metaslabDfAlloc : Option Nat × (Nat → Nat) :=
  let align := sizeAlign size
  let bucket := highbit64 align - 1
  let maxSize := metaslabBlockMaxsize rt
  let freePct := rangeTreeSpace rt * 100 % 2 ^ 64 / msSize
  if maxSize < size then (none, lbas)
  else
    let (offset, cursor) :=
      if maxSize < tun.metaslabDfAllocThreshold ∨ freePct < tun.metaslabDfFreePct then
        metaslabBlockPicker metaslabRangesizeCompare hit (allocatableBySize rt) 0 size 1
      else metaslabBlockPicker rangeTreeSegCompare hit rt.rtRoot (lbas bucket) size 1
    (offset, update lbas bucket cursor)

/-- `metaslab_cf_alloc`, with the cursor in `ms_lbas[0]` and its end in `ms_lbas[1]`. -/
def metaslabCfAlloc : Except Fault (Option Nat × (Nat → Nat)) := do
  ASSERT (lbas 0 ≤ lbas 1)
  if lbas 1 < (lbas 0 + size) % 2 ^ 64 then
    match (allocatableBySize rt).getLast? with
    | none => .ok (none, lbas)
    | some rs =>
      if rs.hi - rs.lo < size then .ok (none, lbas)
      else .ok (some rs.lo, update (update lbas 1 rs.hi) 0 ((rs.lo + size) % 2 ^ 64))
  else .ok (some (lbas 0), update lbas 0 ((lbas 0 + size) % 2 ^ 64))

def metaslabNdfAlloc : Except Fault (Option Nat × (Nat → Nat)) := do
  let hbit := highbit64 size
  let bucket := hbit - 1
  let maxSize := metaslabBlockMaxsize rt
  if maxSize < size then .ok (none, lbas)
  else
    let first := avlFindHit rangeTreeSegCompare (hit (lbas bucket)) rt.rtRoot ⟨lbas bucket, (lbas bucket + size) % 2 ^ 64⟩
    let rs ← match first.filter fun rs => size ≤ rs.hi - rs.lo with
      | some rs => .ok (some rs)
      | none =>
        -- a shift of `1ULL` by its width is undefined
        if 64 ≤ hbit + tun.metaslabNdfClumpShift then .error .bounds
        else .ok (avlFindOrAfter metaslabRangesizeCompare hit (allocatableBySize rt)
          ⟨0, min maxSize (1 <<< (hbit + tun.metaslabNdfClumpShift))⟩)
    match rs with
    | none => .error .assert
    | some rs =>
      if size ≤ rs.hi - rs.lo then
        .ok (some rs.lo, update lbas bucket ((rs.lo + size) % 2 ^ 64))
      else .ok (none, lbas)

/-- `msop_alloc` of the allocator. -/
def msopAlloc (ops : MetaslabOps) : Except Fault (Option Nat × (Nat → Nat)) :=
  match ops with
  | .ff => .ok (metaslabFfAlloc rt hit lbas size)
  | .df => .ok (metaslabDfAlloc tun msSize rt hit lbas size)
  | .cf => metaslabCfAlloc rt lbas size
  | .ndf => metaslabNdfAlloc tun rt hit lbas size

end

/-! ## What the allocators return -/

variable {rs : Seg}

lemma mem_allocatableBySize {rt : RangeTree} : rs ∈ allocatableBySize rt ↔ rs ∈ rt.rtRoot :=
  mem_insertionSort _

variable {align : Nat}

lemma le_p2roundup (x : Nat) (h : 0 < align) : x ≤ p2roundup x align := by
  have h1 := div_add_mod (x + align - 1) align
  have h2 := mod_lt (x + align - 1) h
  rw [mul_comm] at h1
  unfold p2roundup
  omega

lemma p2roundup_lt (x : Nat) (h : 0 < align) : p2roundup x align < x + align := by
  have := Nat.div_mul_le_self (x + align - 1) align
  unfold p2roundup
  omega

variable {offset size : Nat}

/-- No sum of an offset of these segments, rounded up, and the size wraps. -/
def NoWrap (t : List Seg) (size : Nat) : Prop := ∀ rs ∈ t, rs.lo + 2 * size ≤ 2 ^ 64

section
variable (halign : 0 < align) (hle : align ≤ size)
include halign hle

lemma metaslabBlockScan_cons {l : List Seg} (hno : rs.lo + 2 * size ≤ 2 ^ 64) :
    metaslabBlockScan size align (rs :: l) =
      if p2roundup rs.lo align + size ≤ rs.hi then some (p2roundup rs.lo align) else metaslabBlockScan size align l := by
  have := p2roundup_lt rs.lo halign
  rw [metaslabBlockScan, Nat.mod_eq_of_lt (show p2roundup rs.lo align < 2 ^ 64 by omega), Nat.mod_eq_of_lt (by omega)]

lemma metaslabBlockScan_some {l : List Seg} (hno : NoWrap l size) (h : metaslabBlockScan size align l = some offset) :
    ∃ rs ∈ l, offset = p2roundup rs.lo align ∧ offset + size ≤ rs.hi := by
  induction l with
  | nil => cases h
  | cons rs l ih =>
    rw [metaslabBlockScan_cons halign hle (hno rs mem_cons_self)] at h
    by_cases hfit : p2roundup rs.lo align + size ≤ rs.hi
    · rw [if_pos hfit] at h
      cases h
      exact ⟨rs, by simp, rfl, hfit⟩
    · rw [if_neg hfit] at h
      obtain ⟨rs', hmem, h'⟩ := ih (fun r hr => hno r (mem_cons_of_mem rs hr)) h
      exact ⟨rs', by simp [hmem], h'⟩

end

variable {cursor : Nat} {compare : Seg → Seg → Ordering}

variable {hit : Nat → Nat} {t : List Seg}

lemma metaslabBlockFrom_subset : metaslabBlockFrom compare hit t cursor size ⊆ t := by
  unfold metaslabBlockFrom
  split
  · exact nil_subset _
  · exact (dropWhile_suffix _).subset

/-- The picker returns the aligned start of a large enough segment. -/
lemma metaslabBlockPicker_some (halign : 0 < align) (hle : align ≤ size) (hno : NoWrap t size)
    (h : (metaslabBlockPicker compare hit t cursor size align).1 = some offset) :
    ∃ rs ∈ t, offset = p2roundup rs.lo align ∧ offset + size ≤ rs.hi := by
  have scan : ∀ c, metaslabBlockScan size align (metaslabBlockFrom compare hit t c size) = some offset →
      ∃ rs ∈ t, offset = p2roundup rs.lo align ∧ offset + size ≤ rs.hi := by
    intro c hc
    obtain ⟨rs, hmem, hrs⟩ := metaslabBlockScan_some halign hle (fun r hr => hno r (metaslabBlockFrom_subset hr)) hc
    exact ⟨rs, metaslabBlockFrom_subset hmem, hrs⟩
  unfold metaslabBlockPicker at h
  cases h1 : metaslabBlockScan size align (metaslabBlockFrom compare hit t cursor size) with
  | some o => rw [h1] at h; exact scan cursor (h1.trans h)
  | none =>
    rw [h1] at h
    by_cases hc : cursor = 0
    · simp [hc] at h
    · cases h2 : metaslabBlockScan size align (metaslabBlockFrom compare hit t 0 size) with
      | some o => simp only [h2, if_neg hc] at h; exact scan 0 (h2.trans h)
      | none => simp [h2, hc] at h

/-- A search succeeds when some segment is not before the searched one. -/
lemma avlFindOrAfter_ne_none
    {rsearch : Seg} (hrs : rs ∈ t) (h : compare rsearch rs ≠ .gt) : avlFindOrAfter compare hit t rsearch ≠ none := by
  unfold avlFindOrAfter
  cases hf : avlFindHit compare (hit rsearch.lo) t rsearch with
  | some _ => simp
  | none =>
    intro hn
    have hlt := List.find?_eq_none.1 hn rs hrs
    have heq : compare rsearch rs = .eq := by
      cases hc : compare rsearch rs <;> simp_all
    have hmem : rs ∈ t.filter fun rs => compare rsearch rs = .eq := by simp [hrs, heq]
    have := List.getElem?_eq_none_iff.1 hf
    have := mod_lt (hit rsearch.lo) (length_pos_of_mem hmem)
    omega

lemma exists_mem_maxsize (rt : RangeTree) (h : 0 < metaslabBlockMaxsize rt) :
    ∃ rs ∈ allocatableBySize rt, len rs = metaslabBlockMaxsize rt := by
  unfold metaslabBlockMaxsize at h ⊢
  cases hl : (allocatableBySize rt).getLast? with
  | none => simp [hl] at h
  | some rs => exact ⟨rs, mem_of_getLast? hl, rfl⟩

lemma sizeAlign_pos (h0 : 0 < size) (hlt : size < 2 ^ 64) : 0 < sizeAlign size := by
  obtain ⟨k, m, hm, rfl⟩ := Nat.exists_eq_two_pow_mul_odd h0.ne'
  obtain ⟨n, rfl⟩ := hm
  have hk : k < 64 := by
    by_contra hk
    have := Nat.pow_le_pow_right (show 0 < 2 by norm_num) (not_lt.1 hk)
    have := Nat.le_mul_of_pos_right (2 ^ k) (show 0 < 2 * n + 1 by omega)
    omega
  obtain ⟨d, hd⟩ : ∃ d, 64 = k + (d + 1) := ⟨63 - k, by omega⟩
  have hneg : 2 ^ 64 - 2 ^ k * (2 * n + 1) = 2 ^ k * (2 * (2 ^ d - n - 1) + 1) := by
    have : 2 ^ k * (2 * n + 1) < 2 ^ k * (2 * 2 ^ d) := by rw [hd] at hlt; rwa [← pow_succ', ← pow_add]
    have := Nat.lt_of_mul_lt_mul_left this
    rw [hd, pow_add, pow_succ', ← Nat.mul_sub]
    congr 1
    omega
  have hbit : (sizeAlign (2 ^ k * (2 * n + 1))).testBit k = true := by
    rw [sizeAlign, Nat.testBit_and, hneg]
    simp [Nat.testBit_two_pow_mul, Nat.testBit_zero]
  by_contra h
  rw [Nat.eq_zero_of_not_pos h] at hbit
  simp at hbit

variable {k : Nat}

lemma two_pow_dvd_sizeAlign (hk : k ≤ 64) (h : 2 ^ k ∣ size) : 2 ^ k ∣ sizeAlign size := by
  have h' : 2 ^ k ∣ 2 ^ 64 - size := Nat.dvd_sub (pow_dvd_pow 2 hk) h
  rw [Nat.dvd_iff_mod_eq_zero] at *
  rw [sizeAlign, Nat.and_mod_two_pow, h, h', Nat.and_self]

lemma sizeAlign_le (size : Nat) : sizeAlign size ≤ size := Nat.and_le_left

/-- The cursor of the cursor-fit allocator stands at the start of free space, and its end is not after `top`. -/
def CursorFree (ops : MetaslabOps) (u top : Nat) (lbas : Nat → Nat) (free : Finset Nat) : Prop :=
  ops = .cf → (lbas 0 ≤ lbas 1 ∧ lbas 1 ≤ top) ∧ u ∣ lbas 0 ∧ Finset.Ico (lbas 0) (lbas 1) ⊆ free

/-- The offsets that an allocation takes. -/
def claimed (offset : Option Nat) (size : Nat) : Finset Nat :=
  match offset with
  | none => ∅
  | some start => Ico start (start + size)

/-- A result that the metaslab can take from the free tree. -/
def Grants (u : Nat) (rt : RangeTree) (size : Nat) (offset : Option Nat) : Prop :=
  claimed offset size ⊆ rt.cover ∧ ∀ start, offset = some start → u ∣ start

section
variable {rt : RangeTree} {u size : Nat}

lemma noWrap_of_le {top : Nat} (htop : ∀ rs ∈ rt.rtRoot, rs.hi ≤ top) (hsums : top + 2 * size ≤ 2 ^ 64) :
    NoWrap rt.rtRoot size := by
  intro rs hrs
  have := rt.consistent.separated.pos rs hrs
  have := htop rs hrs
  omega

lemma grants_none : Grants u rt size none := ⟨empty_subset _, by simp⟩

lemma grants_of_mem (hrs : rs ∈ rt.rtRoot) {start : Nat} (hlo : rs.lo ≤ start)
    (hhi : start + size ≤ rs.hi) (hdvd : u ∣ start) : Grants u rt size (some start) := by
  refine ⟨fun x hx => ?_, fun _ h => Option.some.inj h ▸ hdvd⟩
  have := mem_Ico.1 hx
  exact mem_cover.2 ⟨rs, hrs, by omega⟩

variable (hu : 0 < u) (hw : Whole u rt.cover)
include hu hw

lemma dvd_lo (hrs : rs ∈ rt.rtRoot) : u ∣ rs.lo :=
  (rt.consistent.separated.dvd_of_whole hu hw hrs).1

/-- What the picker returns from `rt`, for an alignment of 1 or of whole units. -/
lemma metaslabBlockPicker_grants (ht : t ⊆ rt.rtRoot) (halign : 0 < align) (hle : align ≤ size)
    (hno : NoWrap rt.rtRoot size) (hdvd : align = 1 ∨ u ∣ align) :
    Grants u rt size (metaslabBlockPicker compare hit t cursor size align).1 := by
  cases h : (metaslabBlockPicker compare hit t cursor size align).1 with
  | none => exact grants_none
  | some start =>
    obtain ⟨rs, hmem, rfl, hfit⟩ := metaslabBlockPicker_some halign hle (fun r hr => hno r (ht hr)) h
    apply grants_of_mem (ht hmem) (le_p2roundup _ halign) hfit
    rcases hdvd with rfl | hdvd
    · simpa [p2roundup] using dvd_lo hu hw (ht hmem)
    · exact hdvd.trans (Dvd.intro_left _ rfl)

lemma metaslabNdfAlloc_grants (hsize : 0 < size) (tun : MetaslabTunables)
    (hshift : highbit64 size + tun.metaslabNdfClumpShift < 64) (hit lbas : Nat → Nat) :
    ∃ offset lbas', metaslabNdfAlloc tun rt hit lbas size = .ok (offset, lbas') ∧
      Grants u rt size offset := by
  have take : ∀ rs ∈ rt.rtRoot, size ≤ rs.hi - rs.lo → 0 < rs.hi - rs.lo → Grants u rt size (some rs.lo) := by
    intro rs hrs h1 h2
    exact grants_of_mem hrs le_rfl (by omega) (dvd_lo hu hw hrs)
  have hpos := rt.consistent.separated.pos
  unfold metaslabNdfAlloc
  dsimp only
  by_cases hmax : metaslabBlockMaxsize rt < size
  · rw [if_pos hmax]
    exact ⟨none, lbas, rfl, grants_none⟩
  · rw [if_neg hmax]
    generalize hfirst : Option.filter _ _ = first
    cases first with
    | some rs =>
      obtain ⟨hf, hlen⟩ := Option.filter_eq_some_iff.1 hfirst
      have hrs : rs ∈ rt.rtRoot := mem_of_mem_filter (mem_of_getElem? hf)
      have hlen' : size ≤ rs.hi - rs.lo := of_decide_eq_true hlen
      simp only [ok_bind, if_pos hlen']
      exact ⟨_, _, rfl, take rs hrs hlen' (by omega)⟩
    | none =>
      -- the largest segment is at or after the searched size, so the search by size succeeds
      dsimp only
      rw [if_neg (Nat.not_le.2 hshift), ok_bind]
      generalize hafter : avlFindOrAfter _ _ _ _ = found
      cases found with
      | some rs =>
        have hrs : rs ∈ rt.rtRoot := by
          unfold avlFindOrAfter at hafter
          split at hafter
          · next h =>
            cases hafter
            exact mem_allocatableBySize.1 (mem_of_mem_filter (mem_of_getElem? h))
          · exact mem_allocatableBySize.1 (mem_of_find?_eq_some hafter)
        by_cases hlen : size ≤ rs.hi - rs.lo
        · simp only [if_pos hlen]
          exact ⟨_, _, rfl, take rs hrs hlen (by omega)⟩
        · simp only [if_neg hlen]
          exact ⟨_, _, rfl, grants_none⟩
      | none =>
        obtain ⟨rs, hrs, hlen⟩ := exists_mem_maxsize rt (by omega)
        refine absurd hafter (avlFindOrAfter_ne_none hrs ?_)
        have hle := min_le_left (metaslabBlockMaxsize rt) (1 <<< (highbit64 size + tun.metaslabNdfClumpShift))
        rw [← hlen] at hle ⊢
        generalize (min _ _ : Nat) = wanted at hle ⊢
        unfold metaslabRangesizeCompare
        unfold len at hle ⊢
        split_ifs <;> simp at *
        omega

lemma metaslabCfAlloc_grants {lbas : Nat → Nat} {top : Nat} (htop : ∀ rs ∈ rt.rtRoot, rs.hi ≤ top) (hno : top + size < 2 ^ 64)
    (hdvd : u ∣ size) (hcur : CursorFree .cf u top lbas rt.cover) :
    ∃ offset lbas', metaslabCfAlloc rt lbas size = .ok (offset, lbas') ∧ Grants u rt size offset ∧
      CursorFree .cf u top lbas' (rt.cover \ claimed offset size) := by
  obtain ⟨⟨hle, hend⟩, hdvd0, hsub⟩ := hcur rfl
  have fail : CursorFree .cf u top lbas (rt.cover \ claimed none size) := by
    intro _
    exact ⟨⟨hle, hend⟩, hdvd0, by simpa [claimed] using hsub⟩
  -- a cursor range that is free before the allocation at its start is free after it
  have advance : ∀ a b, a + size ≤ b → b ≤ top → u ∣ a → Finset.Ico a b ⊆ rt.cover → ∀ f : Nat → Nat,
      f 0 = (a + size) % 2 ^ 64 → f 1 = b → CursorFree .cf u top f (rt.cover \ claimed (some a) size) := by
    intro a b hab hb ha hfree f h0 h1 _
    rw [h0, h1, Nat.mod_eq_of_lt (by omega)]
    refine ⟨⟨hab, hb⟩, ha.add hdvd, fun x hx => ?_⟩
    have := mem_Ico.1 hx
    exact mem_sdiff.2 ⟨hfree (mem_Ico.2 (by omega)), by simp [claimed]; omega⟩
  unfold metaslabCfAlloc
  rw [ASSERT_bind hle, Nat.mod_eq_of_lt (show lbas 0 + size < 2 ^ 64 by omega)]
  by_cases hpast : lbas 1 < lbas 0 + size
  · rw [if_pos hpast]
    cases hl : (allocatableBySize rt).getLast? with
    | none => exact ⟨none, lbas, rfl, grants_none, fail⟩
    | some rs =>
      have hrs := mem_allocatableBySize.1 (mem_of_getLast? hl)
      dsimp only
      by_cases hlen : rs.hi - rs.lo < size
      · rw [if_pos hlen]
        exact ⟨none, lbas, rfl, grants_none, fail⟩
      · rw [if_neg hlen]
        have hd := dvd_lo hu hw hrs
        refine ⟨_, _, rfl, grants_of_mem hrs le_rfl (by omega) hd, advance rs.lo rs.hi (by omega) (htop rs hrs) hd ?_ _ (by simp) (by simp)⟩
        intro x hx
        exact mem_cover.2 ⟨rs, hrs, mem_Ico.1 hx⟩
  · rw [if_neg hpast]
    refine ⟨_, _, rfl, ⟨?_, ?_⟩, advance (lbas 0) (lbas 1) (by omega) hend hdvd0 hsub _ ?_ (by simp)⟩
    · exact (Ico_subset_Ico_right (by omega)).trans hsub
    · intro start h
      exact Option.some.inj h ▸ hdvd0
    · rw [update_self, Nat.mod_eq_of_lt (by omega)]

omit hu in
/-- **The allocators are sound**: from a tree of whole units, a request for whole units is
answered by a free aligned range or declined. -/
theorem msopAlloc_spec (hk : k ≤ 64) (hu2 : u = 2 ^ k) {ops : MetaslabOps} {top : Nat} (htop : ∀ rs ∈ rt.rtRoot, rs.hi ≤ top)
    (tun : MetaslabTunables) (msSize : Nat) (hit : Nat → Nat) {lbas : Nat → Nat} (hsize : 0 < size)
    (hsums : top + 2 * size ≤ 2 ^ 64) (hshift : ops = .ndf → highbit64 size + tun.metaslabNdfClumpShift < 64) (hdvd : u ∣ size)
    (hcur : CursorFree ops u top lbas rt.cover) :
    ∃ offset lbas', msopAlloc tun msSize rt hit lbas size ops = .ok (offset, lbas') ∧
      Grants u rt size offset ∧ CursorFree ops u top lbas' (rt.cover \ claimed offset size) := by
  have hu : 0 < u := by rw [hu2]; exact Nat.two_pow_pos k
  have hno : NoWrap rt.rtRoot size := noWrap_of_le htop hsums
  cases ops with
  | ff =>
    refine ⟨_, _, rfl, ?_, fun h => by cases h⟩
    apply metaslabBlockPicker_grants hu hw (List.Subset.refl _) (sizeAlign_pos hsize (by omega)) (sizeAlign_le size) hno
    exact .inr (hu2 ▸ two_pow_dvd_sizeAlign hk (hu2 ▸ hdvd))
  | df =>
    refine ⟨(metaslabDfAlloc tun msSize rt hit lbas size).1, _, rfl, ?_, fun h => by cases h⟩
    unfold metaslabDfAlloc
    dsimp only
    split_ifs
    · exact grants_none
    · apply metaslabBlockPicker_grants hu hw _ Nat.one_pos hsize hno (.inl rfl)
      intro rs hrs
      exact mem_allocatableBySize.1 hrs
    · exact metaslabBlockPicker_grants hu hw (List.Subset.refl _) Nat.one_pos hsize hno (.inl rfl)
  | cf => exact metaslabCfAlloc_grants hu hw htop (by omega) hdvd hcur
  | ndf =>
    obtain ⟨offset, lbas', h, hg⟩ := metaslabNdfAlloc_grants hu hw hsize tun (hshift rfl) hit lbas
    exact ⟨offset, lbas', h, hg, fun h => by cases h⟩

end

end Unleashed.Zfs
