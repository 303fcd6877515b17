import Unleashed.Kernel.Kmem.System

/-!
# The slab layer

Every chunk of a live slab is on the free list of the slab or allocated, and the hash table knows the
allocated ones.
-/

namespace Unleashed.Kernel.Kmem

open Lib Function Multiset

variable {c : Cache} {out : Multiset Nat} {slab : Nat → Slab} {live live' : Nat → Prop}
  {tab : Nat → List (Nat × Nat)} {mask i j b : Nat} {sp : Slab}

lemma Slab.mem_bufs : b ∈ sp.bufs c ↔ ∃ k < sp.slabChunks, sp.slabBase + k * c.chunksize = b := by
  simp only [Slab.bufs, List.mem_map, List.mem_range]

lemma Slab.bufs_nodup (sp : Slab) : (sp.bufs c).Nodup := by
  refine List.Nodup.map (fun k l h => ?_) List.nodup_range
  exact Nat.eq_of_mul_eq_mul_right c.chunksize_pos (Nat.add_left_cancel h)

lemma Slab.length_bufs (sp : Slab) : (sp.bufs c).length = sp.slabChunks := by
  rw [Slab.bufs, List.length_map, List.length_range]

lemma Fits.mem (h : Fits c i sp) (hb : b ∈ sp.bufs c) : i ≤ b ∧ b < i + c.slabsize ∧ sp.slabBase ≤ b := by
  obtain ⟨k, hk, rfl⟩ := Slab.mem_bufs.1 hb
  have hmul : (k + 1) * c.chunksize ≤ sp.slabChunks * c.chunksize := Nat.mul_le_mul_right _ hk
  have hpos := c.chunksize_pos
  have hlow := h.low
  have hhigh := h.high
  rw [Nat.succ_mul] at hmul
  omega

lemma Fits.member (h : Fits c i sp) (hb : b ∈ sp.bufs c) : slabMember c sp b = true := by
  obtain ⟨-, hlt, hge⟩ := h.mem hb
  have := h.low
  simp only [slabMember, decide_eq_true_eq]
  omega

/-- The state of the chunks; `out` are the allocated ones. -/
structure Chunks (c : Cache) (out : Multiset Nat) (slab : Nat → Slab) (live : Nat → Prop) (tab : Nat → List (Nat × Nat))
    (mask : Nat) : Prop where
  fits : ∀ i, live i → Fits c i (slab i)
  apart : ∀ i j, live i → live j → i ≠ j → i + c.slabsize ≤ j ∨ j + c.slabsize ≤ i
  count : ∀ i, live i → (slab i).slabHead.length + (slab i).slabRefcnt = (slab i).slabChunks
  headNodup : ∀ i, live i → (slab i).slabHead.Nodup
  headMem : ∀ i, live i → ∀ b ∈ (slab i).slabHead, b ∈ (slab i).bufs c
  outNodup : out.Nodup
  outMem : ∀ b ∈ out, ∃ i, live i ∧ b ∈ (slab i).bufs c ∧ b ∉ (slab i).slabHead
  covered : ∀ i, live i → ∀ b ∈ (slab i).bufs c, b ∈ (slab i).slabHead ∨ b ∈ out
  hash : c.hashed = true → ∃ ents : Multiset (Nat × Nat), Buckets (kmemHash c mask) (mask + 1) tab ents ∧
    ents.map Prod.fst = out ∧ ∀ e ∈ ents, live e.2 ∧ e.1 ∈ (slab e.2).bufs c

variable {out' : Multiset Nat}

namespace Chunks

lemma slab_unique (h : Chunks c out slab live tab mask) (hi : live i) (hj : live j) (hbi : b ∈ (slab i).bufs c)
    (hbj : b ∈ (slab j).bufs c) : i = j := by
  by_contra hne
  have hi' := (h.fits i hi).mem hbi
  have hj' := (h.fits j hj).mem hbj
  have := h.apart i j hi hj hne
  omega

lemma add (h : Chunks c out slab live tab mask) (hi : ¬ live i) (hfits : Fits c i sp)
    (hapart : ∀ j, live j → j + c.slabsize ≤ i ∨ i + c.slabsize ≤ j) (href : sp.slabRefcnt = 0)
    (hhead : sp.slabHead = (sp.bufs c).reverse) : Chunks c out (update slab i sp) (fun j => live j ∨ j = i) tab mask := by
  have hother : ∀ j, live j → update slab i sp j = slab j := fun j hj =>
    update_of_ne (fun heq : j = i => hi (heq ▸ hj)) _ _
  refine ⟨?_, ?_, ?_, ?_, ?_, h.outNodup, ?_, ?_, ?_⟩
  · rintro j (hj | rfl)
    · rw [hother j hj]
      exact h.fits j hj
    · rwa [update_self]
  · rintro j k (hj | rfl) (hk | rfl) hne
    · exact h.apart j k hj hk hne
    · exact hapart j hj
    · exact (hapart k hk).symm
    · exact absurd rfl hne
  · rintro j (hj | rfl)
    · rw [hother j hj]
      exact h.count j hj
    · rw [update_self, hhead, List.length_reverse, Slab.length_bufs, href]
      rfl
  · rintro j (hj | rfl)
    · rw [hother j hj]
      exact h.headNodup j hj
    · rw [update_self, hhead]
      exact List.nodup_reverse.2 sp.bufs_nodup
  · rintro j (hj | rfl) b hb
    · rw [hother j hj] at hb ⊢
      exact h.headMem j hj b hb
    · rw [update_self, hhead] at hb
      rw [update_self]
      exact List.mem_reverse.1 hb
  · intro b hb
    obtain ⟨j, hj, hmem⟩ := h.outMem b hb
    exact ⟨j, .inl hj, by rw [hother j hj]; exact hmem⟩
  · rintro j (hj | rfl) b hb
    · rw [hother j hj] at hb ⊢
      exact h.covered j hj b hb
    · rw [update_self] at hb ⊢
      rw [hhead]
      exact .inl (List.mem_reverse.2 hb)
  · intro hh
    obtain ⟨ents, hb, hfst, hents⟩ := h.hash hh
    exact ⟨ents, hb, hfst, fun e he => ⟨.inl (hents e he).1, by rw [hother e.2 (hents e he).1]; exact (hents e he).2⟩⟩

variable {tab' : Nat → List (Nat × Nat)}

section
variable (h : Chunks c out slab live tab mask)
include h

/-- The free list and the count of a slab change. -/
lemma change {head : List Nat} {n : Nat} (hi : live i) (hcount : head.length + n = (slab i).slabChunks) (hnd : head.Nodup)
    (hmem : ∀ b ∈ head, b ∈ (slab i).bufs c) (hout : out'.Nodup)
    (hin : ∀ b ∈ (slab i).bufs c, b ∈ out' ↔ b ∉ head) (hother : ∀ b, b ∉ (slab i).bufs c → (b ∈ out' ↔ b ∈ out))
    (hhash : c.hashed = true → ∃ ents : Multiset (Nat × Nat), Buckets (kmemHash c mask) (mask + 1) tab' ents ∧
      ents.map Prod.fst = out' ∧ ∀ e ∈ ents, live e.2 ∧ e.1 ∈ (slab e.2).bufs c) :
    Chunks c out' (update slab i { slab i with slabHead := head, slabRefcnt := n }) live tab' mask := by
  have hbufs : ∀ j, (update slab i { slab i with slabHead := head, slabRefcnt := n } j).bufs c = (slab j).bufs c := by
    intro j
    by_cases hj : j = i
    · subst hj
      rw [update_self]
      rfl
    · rw [update_of_ne hj]
  have hne : ∀ j, live j → j ≠ i → ∀ b ∈ (slab j).bufs c, b ∉ (slab i).bufs c := fun j hj hji b hb hb' =>
    hji (h.slab_unique hj hi hb hb')
  refine ⟨fun j hj => ?_, h.apart, fun j hj => ?_, fun j hj => ?_, fun j hj b hb => ?_, hout, fun b hb => ?_, fun j hj b hb => ?_,
    fun hh => ?_⟩
  · have hf := h.fits j hj
    by_cases hji : j = i
    · subst hji
      rw [update_self]
      exact { hf with }
    · rwa [update_of_ne hji]
  · by_cases hji : j = i
    · subst hji
      rw [update_self]
      exact hcount
    · rw [update_of_ne hji]
      exact h.count j hj
  · by_cases hji : j = i
    · subst hji
      rw [update_self]
      exact hnd
    · rw [update_of_ne hji]
      exact h.headNodup j hj
  · rw [hbufs]
    by_cases hji : j = i
    · subst hji
      rw [update_self] at hb
      exact hmem b hb
    · rw [update_of_ne hji] at hb
      exact h.headMem j hj b hb
  · by_cases hbi : b ∈ (slab i).bufs c
    · refine ⟨i, hi, by rwa [hbufs], ?_⟩
      rw [update_self]
      exact (hin b hbi).1 hb
    · obtain ⟨j, hj, hbj, hbh⟩ := h.outMem b ((hother b hbi).1 hb)
      have hji : j ≠ i := fun heq => hbi (heq ▸ hbj)
      exact ⟨j, hj, by rwa [hbufs], by rwa [update_of_ne hji]⟩
  · rw [hbufs] at hb
    by_cases hji : j = i
    · subst hji
      rw [update_self]
      by_cases hbh : b ∈ head
      · exact .inl hbh
      · exact .inr ((hin b hb).2 hbh)
    · rw [update_of_ne hji]
      exact (h.covered j hj b hb).imp id (hother b (hne j hj hji b hb)).2
  · obtain ⟨ents, hbk, hfst, hents⟩ := hhash hh
    exact ⟨ents, hbk, hfst, fun e he => ⟨(hents e he).1, by rw [hbufs]; exact (hents e he).2⟩⟩

lemma drop (hi : live i) (href : (slab i).slabRefcnt = 0) : Chunks c out slab (fun j => live j ∧ j ≠ i) tab mask := by
  have hall : ∀ b ∈ (slab i).bufs c, b ∈ (slab i).slabHead := by
    have hsub : (slab i).slabHead.Subperm ((slab i).bufs c) := (h.headNodup i hi).subperm fun b hb => h.headMem i hi b hb
    have hperm := hsub.perm_of_length_le (by
      have := h.count i hi
      rw [Slab.length_bufs]
      omega)
    exact fun b hb => hperm.mem_iff.2 hb
  refine ⟨fun j hj => h.fits j hj.1, fun j k hj hk => h.apart j k hj.1 hk.1, fun j hj => h.count j hj.1,
    fun j hj => h.headNodup j hj.1, fun j hj => h.headMem j hj.1, h.outNodup, fun b hb => ?_, fun j hj => h.covered j hj.1,
    fun hh => ?_⟩
  · obtain ⟨j, hj, hbj, hbh⟩ := h.outMem b hb
    refine ⟨j, ⟨hj, ?_⟩, hbj, hbh⟩
    rintro rfl
    exact hbh (hall b hbj)
  · obtain ⟨ents, hbk, hfst, hents⟩ := h.hash hh
    refine ⟨ents, hbk, hfst, fun e he => ⟨⟨(hents e he).1, ?_⟩, (hents e he).2⟩⟩
    intro heq
    obtain ⟨j, hj, hbj, hbh⟩ := h.outMem e.1 (by rw [← hfst]; exact mem_map_of_mem _ he)
    obtain rfl := h.slab_unique hj (hents e he).1 hbj (hents e he).2
    exact hbh (heq ▸ hall e.1 (heq ▸ hbj))

lemma congr (hl : ∀ j, live' j ↔ live j) : Chunks c out slab live' tab mask := by
  obtain rfl : live' = live := funext fun j => propext (hl j)
  exact h

lemma not_mem_out (hi : live i) (hb : b ∈ (slab i).slabHead) : b ∉ out := fun hbo => by
  obtain ⟨j, hj, hbj, hbh⟩ := h.outMem b hbo
  obtain rfl := h.slab_unique hj hi hbj (h.headMem i hi b hb)
  exact hbh hb

end

lemma kmemHash_lt (e : Nat × Nat) : kmemHash c mask e < mask + 1 := Nat.lt_succ_of_le Nat.and_le_right

lemma alloc {rest : List Nat} (h : Chunks c out slab live tab mask) (hi : live i) (hhead : (slab i).slabHead = b :: rest) :
    Chunks c (b ::ₘ out) (update slab i { slab i with slabHead := rest, slabRefcnt := (slab i).slabRefcnt + 1 }) live
      (if c.hashed then pushBucket (kmemHash c mask) tab (b, i) else tab) mask := by
  have hnd := h.headNodup i hi
  have hmem := h.headMem i hi
  have hcount := h.count i hi
  have hnot : ∀ a ∈ (slab i).slabHead, a ∉ out := fun a ha => h.not_mem_out hi ha
  rw [hhead] at hnd hmem hcount hnot
  obtain ⟨hbr, hnd⟩ := List.nodup_cons.1 hnd
  have hb : b ∈ (slab i).bufs c := hmem b List.mem_cons_self
  refine h.change hi ?_ hnd (fun a ha => hmem a (List.mem_cons_of_mem _ ha)) ?_ (fun a ha => ?_) (fun a ha => ?_) (fun hh => ?_)
  · rw [List.length_cons] at hcount
    omega
  · exact nodup_cons.2 ⟨hnot b List.mem_cons_self, h.outNodup⟩
  · rw [mem_cons]
    constructor
    · rintro (rfl | hao) har
      · exact hbr har
      · exact hnot a (List.mem_cons_of_mem _ har) hao
    · intro har
      have := h.covered i hi a ha
      rw [hhead, List.mem_cons] at this
      tauto
  · rw [mem_cons, or_iff_right]
    rintro rfl
    exact ha hb
  · obtain ⟨ents, hbk, hfst, hents⟩ := h.hash hh
    rw [if_pos hh]
    refine ⟨(b, i) ::ₘ ents, hbk.push (kmemHash_lt _), by rw [map_cons, hfst], fun e he => ?_⟩
    rcases mem_cons.1 he with rfl | he
    · exact ⟨hi, hb⟩
    · exact hents e he

lemma takeAll (h : Chunks c out slab live tab mask) (hi : live i) (hh : c.hashed = false) :
    Chunks c (((slab i).slabHead : Multiset Nat) + out)
      (update slab i { slab i with slabHead := [], slabRefcnt := (slab i).slabChunks }) live tab mask := by
  refine h.change hi (Nat.zero_add _) List.nodup_nil (fun a ha => absurd ha List.not_mem_nil) ?_ (fun a ha => ?_) (fun a ha => ?_)
    (fun hh' => by simp [hh] at hh')
  · rw [nodup_add]
    refine ⟨coe_nodup.2 (h.headNodup i hi), h.outNodup, ?_⟩
    exact disjoint_left.2 fun ha => h.not_mem_out hi (mem_coe.1 ha)
  · simpa using h.covered i hi a ha
  · rw [mem_add, mem_coe, or_iff_right]
    exact fun hm => ha (h.headMem i hi a hm)

lemma free (h : Chunks c (b ::ₘ out) slab live tab mask) (hi : live i) (hb : b ∈ (slab i).bufs c)
    (hhash : c.hashed = true → ∃ ents : Multiset (Nat × Nat), Buckets (kmemHash c mask) (mask + 1) tab' ents ∧
      ents.map Prod.fst = out ∧ ∀ e ∈ ents, live e.2 ∧ e.1 ∈ (slab e.2).bufs c) : 1 ≤ (slab i).slabRefcnt ∧
    Chunks c out (update slab i { slab i with slabHead := b :: (slab i).slabHead, slabRefcnt := (slab i).slabRefcnt - 1 })
      live tab' mask := by
  have hbh : b ∉ (slab i).slabHead := fun hm => h.not_mem_out hi hm (mem_cons_self b out)
  obtain ⟨hbo, hnd⟩ := nodup_cons.1 h.outNodup
  have hheadnd : (b :: (slab i).slabHead).Nodup := List.nodup_cons.2 ⟨hbh, h.headNodup i hi⟩
  have hsub : ∀ a ∈ b :: (slab i).slabHead, a ∈ (slab i).bufs c := fun a ha => by
    rcases List.mem_cons.1 ha with rfl | ha
    · exact hb
    · exact h.headMem i hi a ha
  have hcount := h.count i hi
  have hlen := (hheadnd.subperm hsub).length_le
  rw [List.length_cons, Slab.length_bufs] at hlen
  refine ⟨by omega, h.change hi ?_ hheadnd hsub hnd (fun a ha => ?_) (fun a ha => ?_) hhash⟩
  · rw [List.length_cons]
    omega
  · rw [List.mem_cons]
    constructor
    · rintro hao (rfl | hm)
      · exact hbo hao
      · exact h.not_mem_out hi hm (mem_cons_of_mem hao)
    · intro hno
      have := h.covered i hi a ha
      rw [mem_cons] at this
      tauto
  · rw [mem_cons, or_iff_right]
    rintro rfl
    exact ha hb

end Chunks

/-- The state of the slab layer. -/
structure SlabOk (c : Cache) (out : Multiset Nat) (S : SlabLayer) : Prop where
  chunks : Chunks c out S.slab (· ∈ S.live) S.cacheHashTable S.cacheHashMask
  liveNodup : S.live.Nodup
  isPartial : ∀ i ∈ S.cachePartialSlabs, slabIsPartial (S.slab i)
  isComplete : ∀ i ∈ S.cacheCompleteSlabs, (S.slab i).slabRefcnt = (S.slab i).slabChunks

variable {S S' : SlabLayer}

/-- The slab of an allocated buffer is found and leaves the hash table. -/
lemma slabLookup_spec (h : SlabOk c (b ::ₘ out) S) : ∃ i tab', slabLookup c S b = some (i, { S with cacheHashTable := tab' }) ∧
    i ∈ S.live ∧ b ∈ (S.slab i).bufs c ∧
    (c.hashed = true → ∃ ents : Multiset (Nat × Nat), Buckets (kmemHash c S.cacheHashMask) (S.cacheHashMask + 1) tab' ents ∧
      ents.map Prod.fst = out ∧ ∀ e ∈ ents, e.2 ∈ S.live ∧ e.1 ∈ (S.slab e.2).bufs c) := by
  have hbo : b ∈ b ::ₘ out := mem_cons_self b out
  obtain ⟨i, hi, hbi, -⟩ := h.chunks.outMem b hbo
  unfold slabLookup
  split
  next hh =>
    obtain ⟨ents, hbk, hfst, hents⟩ := h.chunks.hash hh
    rw [← hfst] at hbo
    obtain ⟨e, he, heb⟩ := mem_map.1 hbo
    have hindex : ∀ e : Nat × Nat, e.1 = b → kmemHash c S.cacheHashMask e = kmemHash c S.cacheHashMask (b, 0) := fun e he => by
      rw [kmemHash, he, kmemHash]
    have hlt : kmemHash c S.cacheHashMask (b, 0) < S.cacheHashMask + 1 := Chunks.kmemHash_lt (b, 0)
    obtain ⟨-, hmem⟩ := hbk.mem_bucket he
    rw [hindex e heb] at hmem
    cases hfind : (S.cacheHashTable (kmemHash c S.cacheHashMask (b, 0))).find? (·.1 = b) with
    | none => simpa [heb] using List.find?_eq_none.1 hfind e hmem
    | some e' =>
      have he'b : e'.1 = b := by simpa using List.find?_some hfind
      obtain ⟨ents', rfl, hbk'⟩ := hbk.take hlt (perm_cons_eraseP hfind)
      have he' := hents e' (mem_cons_self _ _)
      rw [he'b] at he'
      refine ⟨e'.2, _, by dsimp only; rw [hfind], he'.1, he'.2, fun _ => ⟨ents', hbk', ?_, fun e'' hm => hents e'' (mem_cons_of_mem hm)⟩⟩
      rw [map_cons, he'b] at hfst
      exact (cons_inj_right b).1 hfst
  next hh =>
    have hh' : c.hashed = false := by simpa using hh
    have hfit := h.chunks.fits i hi
    have hmem := hfit.mem hbi
    obtain ⟨k, rfl⟩ := hfit.aligned hh'
    have hdiv : b / c.slabsize * c.slabsize = c.slabsize * k := by
      have hpos : 0 < c.slabsize := by omega
      have : b / c.slabsize = k := by
        rw [Nat.div_eq_iff hpos]
        constructor
        · rw [Nat.mul_comm]
          exact hmem.1
        · have := hmem.2.1
          rw [Nat.mul_comm] at this
          omega
      rw [this, Nat.mul_comm]
    rw [hdiv, if_pos (List.mem_append.1 hi)]
    exact ⟨_, S.cacheHashTable, rfl, hi, hbi, fun hh'' => absurd hh'' hh⟩

lemma mem_live : i ∈ S.live ↔ i ∈ S.cachePartialSlabs ∨ i ∈ S.cacheCompleteSlabs := List.mem_append

/-- Where a slab is on the lists says how many of its chunks are allocated. -/
lemma SlabOk.lists (h : SlabOk c out S) (hi : i ∈ S.live) :
    (i ∈ S.cachePartialSlabs ↔ slabIsPartial (S.slab i)) ∧ (i ∈ S.cacheCompleteSlabs ↔ (S.slab i).slabRefcnt = (S.slab i).slabChunks) := by
  rcases mem_live.1 hi with hp | hc
  · have := h.isPartial i hp
    have hno : i ∉ S.cacheCompleteSlabs := fun hc => (List.nodup_append.1 h.liveNodup).2.2 i hp i hc rfl
    refine ⟨⟨fun _ => this, fun _ => hp⟩, fun hc => absurd hc hno, fun heq => ?_⟩
    unfold slabIsPartial at this
    omega
  · have := h.isComplete i hc
    have hno : i ∉ S.cachePartialSlabs := fun hp => (List.nodup_append.1 h.liveNodup).2.2 i hp i hc rfl
    refine ⟨⟨fun hp => absurd hp hno, fun hpart => ?_⟩, fun _ => this, fun _ => hc⟩
    unfold slabIsPartial at hpart
    omega

lemma SlabOk.update (h : SlabOk c out S) {partials completes : List Nat}
    (hch : Chunks c out' (Function.update S.slab i sp) (· ∈ partials ++ completes) tab mask) (hnd : (partials ++ completes).Nodup)
    (hp : ∀ j ∈ partials, j = i ∧ slabIsPartial sp ∨ j ≠ i ∧ j ∈ S.cachePartialSlabs)
    (hc : ∀ j ∈ completes, j = i ∧ sp.slabRefcnt = sp.slabChunks ∨ j ≠ i ∧ j ∈ S.cacheCompleteSlabs) :
    SlabOk c out' ⟨Function.update S.slab i sp, partials, completes, tab, mask⟩ := by
  refine ⟨hch, hnd, fun j hj => ?_, fun j hj => ?_⟩
  · show slabIsPartial (Function.update S.slab i sp j)
    rcases hp j hj with ⟨rfl, hpart⟩ | ⟨hne, hold⟩
    · rw [update_self]
      exact hpart
    · rw [update_of_ne hne]
      exact h.isPartial j hold
  · show (Function.update S.slab i sp j).slabRefcnt = (Function.update S.slab i sp j).slabChunks
    rcases hc j hj with ⟨rfl, hcomp⟩ | ⟨hne, hold⟩
    · rw [update_self]
      exact hcomp
    · rw [update_of_ne hne]
      exact h.isComplete j hold

/-- No slab becomes live, and one that is destroyed has no allocations. -/
structure Shrinks (S S' : SlabLayer) : Prop where
  live : ∀ j ∈ S'.live, j ∈ S.live
  destroyed : ∀ j ∈ S.live, j ∉ S'.live → (S'.slab j).slabRefcnt = 0

lemma Shrinks.refl (S : SlabLayer) : Shrinks S S := ⟨fun _ hj => hj, fun _ hj hno => absurd hj hno⟩

lemma kmemSlabFree_spec (h : SlabOk c (b ::ₘ out) S) : ∃ S', kmemSlabFree c S b = .ok S' ∧ SlabOk c out S' ∧ Shrinks S S' := by
  obtain ⟨i, tab', hlook, hi, hbi, hhash⟩ := slabLookup_spec h
  obtain ⟨href, hch⟩ := h.chunks.free hi hbi hhash
  have hfit := h.chunks.fits i hi
  have hcount := h.chunks.count i hi
  obtain ⟨hpart, hcomp⟩ := h.lists hi
  obtain ⟨hpnd, hcnd, hdisj⟩ := List.nodup_append.1 h.liveNodup
  have hperase : ∀ j, j ∈ S.cachePartialSlabs.erase i ↔ j ∈ S.cachePartialSlabs ∧ j ≠ i := fun j => by
    rw [hpnd.mem_erase_iff, and_comm]
  have hcerase : ∀ j, j ∈ S.cacheCompleteSlabs.erase i ↔ j ∈ S.cacheCompleteSlabs ∧ j ≠ i := fun j => by
    rw [hcnd.mem_erase_iff, and_comm]
  rw [kmemSlabFree, hlook]
  dsimp only
  rw [VERIFY_bind (hfit.member hbi), slabRelease, ASSERT_bind href]
  generalize hsp : ({ S.slab i with slabHead := b :: (S.slab i).slabHead, slabRefcnt := (S.slab i).slabRefcnt - 1 } : Slab) = sp at hch
  have hspc : sp.slabRefcnt = (S.slab i).slabRefcnt - 1 ∧ sp.slabChunks = (S.slab i).slabChunks := by rw [← hsp]; exact ⟨rfl, rfl⟩
  dsimp only [SlabLayer.setSlab]
  split
  next h0 =>
    have hdrop := hch.drop hi (by rw [update_self, hspc.1, h0])
    have hdead : ∀ j ∈ S.live, ¬ (j ∈ S.live ∧ j ≠ i) → (update S.slab i sp j).slabRefcnt = 0 := fun j hj hno => by
      obtain rfl : j = i := by_contra fun hne => hno ⟨hj, hne⟩
      rw [update_self, hspc.1, h0]
    split
    next h1 =>
      have hic := hcomp.2 (by omega)
      have hip : i ∉ S.cachePartialSlabs := fun hp => hdisj i hp i hic rfl
      have hlive : ∀ j, j ∈ S.cachePartialSlabs ++ S.cacheCompleteSlabs.erase i ↔ j ∈ S.live ∧ j ≠ i := fun j => by
        rw [List.mem_append, hcerase, mem_live]
        constructor
        · rintro (hj | hj)
          · exact ⟨.inl hj, fun heq => hip (heq ▸ hj)⟩
          · exact ⟨.inr hj.1, hj.2⟩
        · rintro ⟨hj | hj, hne⟩
          · exact .inl hj
          · exact .inr ⟨hj, hne⟩
      refine ⟨_, rfl, h.update (hdrop.congr hlive) ?_ (fun j hj => .inr ⟨fun heq => hip (heq ▸ hj), hj⟩)
        (fun j hj => .inr ((hcerase j).1 hj).symm), ⟨fun j hj => ((hlive j).1 hj).1, fun j hj hno => hdead j hj fun hl => hno ((hlive j).2 hl)⟩⟩
      exact List.nodup_append.2 ⟨hpnd, hcnd.erase i, fun a ha b' hb' => hdisj a ha b' (List.mem_of_mem_erase hb')⟩
    next h1 =>
      have hfpos := hfit.slabChunks
      have hip := hpart.2 ⟨by omega, by omega⟩
      have hic : i ∉ S.cacheCompleteSlabs := fun hc => hdisj i hip i hc rfl
      have hlive : ∀ j, j ∈ S.cachePartialSlabs.erase i ++ S.cacheCompleteSlabs ↔ j ∈ S.live ∧ j ≠ i := fun j => by
        rw [List.mem_append, hperase, mem_live]
        constructor
        · rintro (hj | hj)
          · exact ⟨.inl hj.1, hj.2⟩
          · exact ⟨.inr hj, fun heq => hic (heq ▸ hj)⟩
        · rintro ⟨hj | hj, hne⟩
          · exact .inl ⟨hj, hne⟩
          · exact .inr hj
      refine ⟨_, rfl, h.update (hdrop.congr hlive) ?_ (fun j hj => .inr ((hperase j).1 hj).symm)
        (fun j hj => .inr ⟨fun heq => hic (heq ▸ hj), hj⟩), ⟨fun j hj => ((hlive j).1 hj).1, fun j hj hno => hdead j hj fun hl => hno ((hlive j).2 hl)⟩⟩
      exact List.nodup_append.2 ⟨hpnd.erase i, hcnd, fun a ha b' hb' => hdisj a (List.mem_of_mem_erase ha) b' hb'⟩
  next h0 =>
    split
    next hempty =>
      rw [hempty, List.length_nil] at hcount
      have hic := hcomp.2 (by omega)
      have hip : i ∉ S.cachePartialSlabs := fun hp => hdisj i hp i hic rfl
      have hlive : ∀ j, j ∈ i :: S.cachePartialSlabs ++ S.cacheCompleteSlabs.erase i ↔ j ∈ S.live := fun j => by
        rw [List.cons_append, List.mem_cons, List.mem_append, hcerase, mem_live]
        constructor
        · rintro (rfl | hj | hj)
          · exact .inr hic
          · exact .inl hj
          · exact .inr hj.1
        · rintro (hj | hj)
          · exact .inr (.inl hj)
          · rcases eq_or_ne j i with rfl | hne
            · exact .inl rfl
            · exact .inr (.inr ⟨hj, hne⟩)
      rw [ASSERT_bind (by omega), ASSERT_bind (by omega)]
      have hsp' : slabIsPartial sp := by
        rw [slabIsPartial, hspc.1, hspc.2]
        omega
      refine ⟨_, rfl, h.update (hch.congr hlive) ?_ (fun j hj => ?_) (fun j hj => .inr ((hcerase j).1 hj).symm),
        ⟨fun j hj => (hlive j).1 hj, fun j hj hno => absurd ((hlive j).2 hj) hno⟩⟩
      · refine List.nodup_append.2 ⟨List.nodup_cons.2 ⟨hip, hpnd⟩, hcnd.erase i, fun a ha b' hb' => ?_⟩
        rcases List.mem_cons.1 ha with rfl | ha
        · exact fun heq => ((hcerase b').1 hb').2 heq.symm
        · exact hdisj a ha b' (List.mem_of_mem_erase hb')
      · rcases List.mem_cons.1 hj with rfl | hj
        · exact .inl ⟨rfl, hsp'⟩
        · exact .inr ⟨fun heq => hip (heq ▸ hj), hj⟩
    next hne =>
      have hlen := List.length_pos_iff.2 hne
      have hip := hpart.2 ⟨by omega, by omega⟩
      have hic : i ∉ S.cacheCompleteSlabs := fun hc => hdisj i hip i hc rfl
      have hsp' : slabIsPartial sp := by
        rw [slabIsPartial, hspc.1, hspc.2]
        omega
      refine ⟨_, rfl, h.update hch h.liveNodup (fun j hj => ?_) (fun j hj => .inr ⟨fun heq => hic (heq ▸ hj), hj⟩),
        ⟨fun j hj => hj, fun j hj hno => absurd hj hno⟩⟩
      rcases eq_or_ne j i with rfl | hji
      · exact .inl ⟨rfl, hsp'⟩
      · exact .inr ⟨hji, hj⟩

lemma hashAdd_eq (S : SlabLayer) (e : Nat × Nat) : hashAdd c S e = { S with
    cacheHashTable := if c.hashed then pushBucket (kmemHash c S.cacheHashMask) S.cacheHashTable e else S.cacheHashTable } := by
  unfold hashAdd
  split <;> rfl

lemma kmemSlabAllocImpl_old (h : SlabOk c out S) (hi : i ∈ S.cachePartialSlabs) (e : Bool) :
    ∃ b S', kmemSlabAllocImpl c S i (S.slab i) e = .ok (b, [], S') ∧ SlabOk c (b ::ₘ out) S' ∧ Shrinks S S' := by
  have hlive : i ∈ S.live := mem_live.2 (.inl hi)
  have hpart := h.isPartial i hi
  have hcount := h.chunks.count i hlive
  obtain ⟨hpnd, hcnd, hdisj⟩ := List.nodup_append.1 h.liveNodup
  have hic : i ∉ S.cacheCompleteSlabs := fun hc => hdisj i hi i hc rfl
  have hpart' := hpart
  unfold slabIsPartial at hpart'
  cases hhead : (S.slab i).slabHead with
  | nil =>
    rw [hhead, List.length_nil] at hcount
    omega
  | cons b rest =>
    have hch := h.chunks.alloc hlive hhead
    have hmem := (h.chunks.fits i hlive).member (h.chunks.headMem i hlive b (by rw [hhead]; exact List.mem_cons_self))
    rw [hhead, List.length_cons] at hcount
    rw [kmemSlabAllocImpl]
    rw [ASSERT_bind (.inr ⟨hpart, hi⟩), hhead]
    dsimp only
    rw [ASSERT_bind (by exact hmem), hashAdd_eq, decide_eq_false (by omega)]
    dsimp only [SlabLayer.setSlab, slabPlace]
    by_cases hrest : rest = []
    · rw [if_pos hrest, ASSERT_bind (by rw [hrest, List.length_nil] at hcount; omega), ASSERT_bind (by simp; omega)]
      have hperase : ∀ j, j ∈ S.cachePartialSlabs.erase i ↔ j ∈ S.cachePartialSlabs ∧ j ≠ i := fun j => by
        rw [hpnd.mem_erase_iff, and_comm]
      have hl : ∀ j, j ∈ S.cachePartialSlabs.erase i ++ i :: S.cacheCompleteSlabs ↔ j ∈ S.live := fun j => by
        rw [List.mem_append, hperase, List.mem_cons, mem_live]
        constructor
        · rintro (hj | rfl | hj)
          · exact .inl hj.1
          · exact .inl hi
          · exact .inr hj
        · rintro (hj | hj)
          · rcases eq_or_ne j i with rfl | hne
            · exact .inr (.inl rfl)
            · exact .inl ⟨hj, hne⟩
          · exact .inr (.inr hj)
      refine ⟨b, _, rfl, h.update (hch.congr hl) ?_ (fun j hj => .inr ((hperase j).1 hj).symm) (fun j hj => ?_),
        ⟨fun j hj => (hl j).1 hj, fun j hj hno => absurd ((hl j).2 hj) hno⟩⟩
      · refine List.nodup_append.2 ⟨hpnd.erase i, List.nodup_cons.2 ⟨hic, hcnd⟩, fun a ha b' hb' => ?_⟩
        rcases List.mem_cons.1 hb' with rfl | hb'
        · exact ((hperase a).1 ha).2
        · exact hdisj a (List.mem_of_mem_erase ha) b' hb'
      · rcases List.mem_cons.1 hj with rfl | hj
        · rw [hrest, List.length_nil] at hcount
          refine .inl ⟨rfl, ?_⟩
          show (S.slab j).slabRefcnt + 1 = (S.slab j).slabChunks
          omega
        · exact .inr ⟨fun heq => hic (heq ▸ hj), hj⟩
    · have hlen := List.length_pos_iff.2 hrest
      have hpart1 : slabIsPartial { S.slab i with slabHead := rest, slabRefcnt := (S.slab i).slabRefcnt + 1 } := by
        unfold slabIsPartial
        dsimp only
        omega
      rw [if_neg hrest, ASSERT_bind hpart1, if_neg (by simp), if_neg (by simp)]
      refine ⟨b, _, rfl, h.update hch h.liveNodup (fun j hj => ?_) (fun j hj => .inr ⟨fun heq => hic (heq ▸ hj), hj⟩),
        ⟨fun j hj => hj, fun j hj hno => absurd hj hno⟩⟩
      rcases eq_or_ne j i with rfl | hne
      · exact .inl ⟨rfl, hpart1⟩
      · exact .inr ⟨hne, hj⟩

/-- A slab that has just been created. -/
structure Private (c : Cache) (S : SlabLayer) (i : Nat) (sp : Slab) : Prop where
  slabRefcnt : sp.slabRefcnt = 0
  slabHead : sp.slabHead = (sp.bufs c).reverse
  fits : Fits c i sp
  apart : ∀ j ∈ S.live, j + c.slabsize ≤ i ∨ i + c.slabsize ≤ j

lemma Fits.slabsize_pos (h : Fits c i sp) : 0 < c.slabsize := by
  have hlow := h.low
  have hhigh := h.high
  have := Nat.mul_pos h.slabChunks c.chunksize_pos
  omega

lemma Private.not_live (h : Private c S i sp) : i ∉ S.live := fun hi => by
  have := h.apart i hi
  have := h.fits.slabsize_pos
  omega

/-- `kmem_slab_alloc_impl` on a new slab; the other chunks may fill magazines. -/
lemma kmemSlabAllocImpl_new (h : SlabOk c out S) (hp : Private c S i sp) (e : Bool) :
    ∃ b more S', kmemSlabAllocImpl c (S.setSlab i sp) i sp e = .ok (b, more, S') ∧ SlabOk c ((more : Multiset Nat) + (b ::ₘ out)) S' ∧
      ∀ j, j ∈ S'.live ↔ j ∈ S.live ∨ j = i := by
  have hnot := hp.not_live
  have hip : i ∉ S.cachePartialSlabs := fun hm => hnot (mem_live.2 (.inl hm))
  have hic : i ∉ S.cacheCompleteSlabs := fun hm => hnot (mem_live.2 (.inr hm))
  obtain ⟨hpnd, hcnd, hdisj⟩ := List.nodup_append.1 h.liveNodup
  have hadd := h.chunks.add hnot hp.fits hp.apart hp.slabRefcnt hp.slabHead
  have hlen : sp.slabHead.length = sp.slabChunks := by rw [hp.slabHead, List.length_reverse, Slab.length_bufs]
  have hpos := hp.fits.slabChunks
  cases hhead : sp.slabHead with
  | nil =>
    rw [hhead, List.length_nil] at hlen
    omega
  | cons b rest =>
    have hself : update S.slab i sp i = sp := update_self ..
    have hch := hadd.alloc (.inr rfl) (by rw [hself, hhead])
    rw [hself, update_idem] at hch
    have hmem : slabMember c sp b = true := hp.fits.member (by
      have : b ∈ sp.slabHead := by rw [hhead]; exact List.mem_cons_self
      rw [hp.slabHead] at this
      exact List.mem_reverse.1 this)
    rw [hhead, List.length_cons] at hlen
    rw [kmemSlabAllocImpl]
    rw [ASSERT_bind (.inl hp.slabRefcnt), hhead]
    dsimp only
    rw [ASSERT_bind (by exact hmem), hashAdd_eq, decide_eq_true hp.slabRefcnt]
    dsimp only [SlabLayer.setSlab, slabPlace]
    rw [update_idem]
    have hpold : ∀ j ∈ S.cachePartialSlabs, j ≠ i ∧ j ∈ S.cachePartialSlabs := fun j hj => ⟨fun heq => hip (heq ▸ hj), hj⟩
    have hcold : ∀ j ∈ S.cacheCompleteSlabs, j ≠ i ∧ j ∈ S.cacheCompleteSlabs := fun j hj => ⟨fun heq => hic (heq ▸ hj), hj⟩
    -- the lists of a new slab that has no free chunk left
    have hl : ∀ j, j ∈ S.cachePartialSlabs ++ i :: S.cacheCompleteSlabs ↔ j ∈ S.live ∨ j = i := fun j => by
      rw [List.mem_append, List.mem_cons, mem_live]
      tauto
    have hnd : (S.cachePartialSlabs ++ i :: S.cacheCompleteSlabs).Nodup := by
      refine List.nodup_append.2 ⟨hpnd, List.nodup_cons.2 ⟨hic, hcnd⟩, fun a ha b' hb' => ?_⟩
      rcases List.mem_cons.1 hb' with rfl | hb'
      · exact fun heq => hip (heq ▸ ha)
      · exact hdisj a ha b' hb'
    by_cases hrest : rest = []
    · rw [hrest, List.length_nil] at hlen
      rw [if_pos hrest, ASSERT_bind (by rw [hp.slabRefcnt]; omega), ASSERT_bind (by rw [if_pos rfl]; omega)]
      refine ⟨b, [], ?_⟩
      rw [coe_nil, zero_add]
      refine ⟨_, rfl, h.update (hch.congr hl) hnd (fun j hj => .inr (hpold j hj)) (fun j hj => ?_), hl⟩
      rcases List.mem_cons.1 hj with rfl | hj
      · refine .inl ⟨rfl, ?_⟩
        show sp.slabRefcnt + 1 = sp.slabChunks
        rw [hp.slabRefcnt]
        omega
      · exact .inr (hcold j hj)
    · have hrlen := List.length_pos_iff.2 hrest
      have hpart1 : slabIsPartial { sp with slabRefcnt := sp.slabRefcnt + 1, slabHead := rest } := by
        unfold slabIsPartial
        dsimp only
        rw [hp.slabRefcnt]
        omega
      rw [if_neg hrest, ASSERT_bind hpart1]
      split
      next hpre =>
        rw [ASSERT_bind (by rw [hp.slabRefcnt]), ASSERT_bind ⟨hpart1.2, hip⟩]
        have htake := hch.takeAll (.inr rfl) (c.prefill_plain hpre.2.2)
        rw [update_self, update_idem] at htake
        rw [update_idem]
        refine ⟨b, rest, _, rfl, h.update (htake.congr hl) hnd (fun j hj => .inr (hpold j hj)) (fun j hj => ?_), hl⟩
        rcases List.mem_cons.1 hj with rfl | hj
        · exact .inl ⟨rfl, rfl⟩
        · exact .inr (hcold j hj)
      next hpre =>
        rw [if_pos rfl]
        have hl : ∀ j, j ∈ i :: S.cachePartialSlabs ++ S.cacheCompleteSlabs ↔ j ∈ S.live ∨ j = i := fun j => by
          rw [List.cons_append, List.mem_cons, List.mem_append, mem_live]
          tauto
        refine ⟨b, [], ?_⟩
        rw [coe_nil, zero_add]
        refine ⟨_, rfl, h.update (hch.congr hl) ?_ (fun j hj => ?_) (fun j hj => .inr (hcold j hj)), hl⟩
        · refine List.nodup_append.2 ⟨List.nodup_cons.2 ⟨hip, hpnd⟩, hcnd, fun a ha b' hb' => ?_⟩
          rcases List.mem_cons.1 ha with rfl | ha
          · exact fun heq => hic (heq ▸ hb')
          · exact hdisj a ha b' hb'
        · rcases List.mem_cons.1 hj with rfl | hj
          · exact .inl ⟨rfl, hpart1⟩
          · exact .inr (hpold j hj)

lemma kmemHashRescale_spec (h : SlabOk c out S) (n : Nat) : SlabOk c out (kmemHashRescale c S n) := by
  refine { h with chunks := { h.chunks with hash := fun hh => ?_ } }
  obtain ⟨ents, hbk, hfst, hents⟩ := h.chunks.hash hh
  refine ⟨ents, ?_, hfst, hents⟩
  have hempty : Buckets (kmemHash c (n - 1)) (n - 1 + 1) (fun _ => []) 0 := .empty
  have hnew := hempty.foldl_push (l := (List.range (S.cacheHashMask + 1)).flatMap S.cacheHashTable) fun e _ => Chunks.kmemHash_lt e
  rw [hbk.flatMap_eq, zero_add] at hnew
  exact hnew

end Unleashed.Kernel.Kmem
