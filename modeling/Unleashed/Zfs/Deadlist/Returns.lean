import Unleashed.Zfs.Deadlist.Account

/-!
# The operations on deadlists return

On a deadlist that operations have built, each operation passes its checks.
-/

namespace Unleashed.Zfs

open Lib List

section
variable {spa : Spa} {oneBlock : Nat → Bpobj → Bool} {dl : DslDeadlist} {tree : List DslDeadlistEntry}

/-- A key has a previous entry if some key is below it, and its own entry if some key is equal to it. -/
lemma dlTreeFind_places (h : tree.Pairwise fun dle next => dle.dleMintxg < next.dleMintxg) (key : Nat) :
    ∃ before found after, dlTreeFind tree key = (before, found, after) ∧
      ((∃ dle ∈ tree, dle.dleMintxg < key) → ∃ pre, ∃ prev ∈ tree, before = pre ++ [prev]) ∧
      ((∃ dle ∈ tree, dle.dleMintxg = key) → found ≠ none) ∧ ∀ dle ∈ found, dle ∈ tree := by
  obtain ⟨before, found, after, hfind, rfl, hbefore, hfound, hafter⟩ := dlTreeFind_spec h key
  refine ⟨before, found, after, hfind, fun ⟨dle, hdle, hlt⟩ => ?_, ?_, by simp +contextual⟩
  · rcases eq_nil_or_concat before with rfl | ⟨pre, prev, rfl⟩
    · grind
    · exact ⟨pre, prev, by simp, concat_eq_append⟩
  · rintro ⟨dle, hdle, rfl⟩ rfl
    grind

lemma dslDeadlistInsert_returns (h : dl.Sound spa) {bp : Blkptr} (hbp : bpIsHole bp = false)
    (hlow : ∃ dle ∈ dl.dlTree, dle.dleMintxg < bp.blkBirth) : ∃ dl', dslDeadlistInsert spa dl bp = .ok dl' := by
  obtain ⟨before, found, after, hfind, hprev, -⟩ := dlTreeFind_places h.sorted bp.blkBirth
  obtain ⟨pre, prev, hmem, rfl⟩ := hprev hlow
  obtain ⟨prev', heq, -⟩ := dleEnqueue_spec (h.tops prev hmem) hbp
  unfold dslDeadlistInsert
  dsimp only [DslDeadlist.charge]
  rw [hfind]
  dsimp only
  rw [onPrevious_concat, heq]
  exact ⟨_, rfl⟩

variable (h : dl.Sound spa) (hfits : FitsBlock oneBlock)
include h hfits

lemma dslDeadlistRemoveKey_returns {mintxg : Nat}
    (hkey : ∃ dle ∈ dl.dlTree, dle.dleMintxg = mintxg) (hlow : ∃ dle ∈ dl.dlTree, dle.dleMintxg < mintxg) :
    ∃ dl', dslDeadlistRemoveKey oneBlock dl mintxg = .ok dl' := by
  obtain ⟨before, found, after, hfind, hprev, hfound, hmem'⟩ := dlTreeFind_places h.sorted mintxg
  obtain ⟨pre, prev, hmem, rfl⟩ := hprev hlow
  obtain ⟨dle, rfl⟩ := Option.ne_none_iff_exists'.1 (hfound hkey)
  obtain ⟨prev', heq, -⟩ := dleEnqueueSubobj_spec hfits (h.tops prev hmem) dle.dleMintxg (h.tops dle (hmem' dle rfl))
  unfold dslDeadlistRemoveKey
  rw [hfind]
  dsimp only
  rw [onPrevious_concat, heq]
  exact ⟨_, rfl⟩

lemma dslDeadlistInsertBpobj_returns {obj : Option Bpobj} {birth : Nat}
    (hobj : (obj.getD bpobjAlloc).Top spa) (hlow : ∃ dle ∈ dl.dlTree, dle.dleMintxg ≤ birth) :
    ∃ dl', dslDeadlistInsertBpobj oneBlock dl obj birth = .ok dl' := by
  obtain ⟨before, found, after, hfind, hprev, hfound, hmem'⟩ := dlTreeFind_places h.sorted birth
  unfold dslDeadlistInsertBpobj
  dsimp only [DslDeadlist.charge]
  rw [hfind]
  cases found with
  | some dle =>
    obtain ⟨dle', heq, -⟩ := dleEnqueueSubobj_spec hfits (h.tops dle (hmem' dle rfl)) birth hobj
    dsimp only
    rw [heq]
    exact ⟨_, rfl⟩
  | none =>
    obtain ⟨dle, hdle, hle⟩ := hlow
    have hlt : dle.dleMintxg < birth := hle.lt_of_ne fun heq => hfound ⟨dle, hdle, heq⟩ rfl
    obtain ⟨pre, prev, hmem, rfl⟩ := hprev ⟨dle, hdle, hlt⟩
    obtain ⟨prev', heq, -⟩ := dleEnqueueSubobj_spec hfits (h.tops prev hmem) birth hobj
    dsimp only
    rw [onPrevious_concat, heq]
    exact ⟨_, rfl⟩

omit h in
/-- The keys of the target stay: every entry has a place. -/
lemma dslDeadlistMerge_returns (zas : List DslDeadlistEntry) :
    ∀ {dl : DslDeadlist}, dl.Sound spa →
      (∀ za ∈ zas, (za.dleBpobj.getD bpobjAlloc).Top spa ∧ (∀ bp ∈ za.reach, za.dleMintxg < bp.blkBirth ∧
        ∀ key ∈ dl.dlTree.map DslDeadlistEntry.dleMintxg, za.dleMintxg < key → bp.blkBirth ≤ key) ∧
        ∃ key ∈ dl.dlTree.map DslDeadlistEntry.dleMintxg, key ≤ za.dleMintxg) →
      ∃ dl', dslDeadlistMerge oneBlock dl zas = .ok dl' := by
  induction zas with
  | nil => exact fun {dl} _ _ => ⟨dl, rfl⟩
  | cons za zas ih =>
    intro dl h hzas
    obtain ⟨htop, hbirths, key, hkey, hle⟩ := hzas za mem_cons_self
    obtain ⟨dle, hdle, rfl⟩ := mem_map.1 hkey
    obtain ⟨dl1, hinsert⟩ := dslDeadlistInsertBpobj_returns h hfits htop ⟨dle, hdle, hle⟩
    obtain ⟨h1, -, hkeys⟩ := dslDeadlistInsertBpobj_spec h hfits htop hbirths hinsert
    obtain ⟨dl', hrest⟩ := ih h1 fun za' hza' => hkeys ▸ hzas za' (mem_cons_of_mem _ hza')
    exact ⟨dl', by rw [dslDeadlistMerge, hinsert, ok_bind, hrest]⟩

omit h in
/-- **The operations return** on every deadlist that operations have built. -/
theorem DeadlistBuilt.returns {inserted moved : Multiset Blkptr} (h : DeadlistBuilt spa dl inserted moved) :
    (∀ bp, bpIsHole bp = false → (∃ dle ∈ dl.dlTree, dle.dleMintxg < bp.blkBirth) →
      ∃ dl', dslDeadlistInsert spa dl bp = .ok dl' ∧ DeadlistBuilt spa dl' (inserted + {storedBp bp}) moved) ∧
    (∀ mintxg, (∀ dle ∈ dl.dlTree, dle.dleMintxg < mintxg ∧ ∀ bp ∈ dle.reach, bp.blkBirth ≤ mintxg) →
      ∃ dl', dslDeadlistAddKey dl mintxg = .ok dl' ∧ DeadlistBuilt spa dl' inserted moved) ∧
    (∀ mintxg, (∃ dle ∈ dl.dlTree, dle.dleMintxg = mintxg) → (∃ dle ∈ dl.dlTree, dle.dleMintxg < mintxg) →
      ∃ dl', dslDeadlistRemoveKey oneBlock dl mintxg = .ok dl' ∧ DeadlistBuilt spa dl' inserted moved) ∧
    ∀ src inserted' moved' zas, DeadlistBuilt spa src inserted' moved' → zas.Perm src.dlTree → Mergeable dl src →
      (∀ za ∈ src.dlTree, ∃ dle ∈ dl.dlTree, dle.dleMintxg ≤ za.dleMintxg) →
      ∃ dl', dslDeadlistMerge oneBlock dl zas = .ok dl' ∧ DeadlistBuilt spa dl' (inserted + inserted') (moved + moved') := by
  have hsound := h.sound.1
  refine ⟨fun bp hbp hlow => ?_, fun mintxg hlast => ?_, fun mintxg hkey hlow => ?_, fun src _ _ zas hsrc hzas hm hlow => ?_⟩
  · obtain ⟨dl', hrun⟩ := dslDeadlistInsert_returns hsound hbp hlow
    exact ⟨dl', hrun, .insert h hrun⟩
  · obtain ⟨dl', hrun, -⟩ := dslDeadlistAddKey_spec hsound hlast
    exact ⟨dl', hrun, .addKey h hlast hrun⟩
  · obtain ⟨dl', hrun⟩ := dslDeadlistRemoveKey_returns hsound hfits hkey hlow
    exact ⟨dl', hrun, .removeKey h hfits hrun⟩
  · have hsrc' := hsrc.sound.1
    obtain ⟨dl', hrun⟩ := dslDeadlistMerge_returns hfits zas hsound fun za hza => by
      have hmem := hzas.subset hza
      obtain ⟨dle, hdle, hle⟩ := hlow za hmem
      exact ⟨hsrc'.tops za hmem, fun bp hbp => ⟨hsrc'.above za hmem bp hbp, hm.fits hsrc'.toBucketed za hmem bp hbp⟩,
        _, mem_map_of_mem hdle, hle⟩
    exact ⟨dl', hrun, .merge h hsrc hfits hzas hm hrun⟩

end

theorem deadlist_returns_merged : ∃ dl', dslDeadlistMerge (fun _ _ => false) twoKeyDeadlist sectorDeadlist.dlTree = .ok dl' ∧
    ∃ dl'', dslDeadlistRemoveKey (fun _ _ => false) dl' 7 = .ok dl'' := by
  obtain ⟨dl', hmerge, hbuilt⟩ := (twoKeyDeadlist_built.returns fitsBlock_never).2.2.2 sectorDeadlist _ _ _ sectorDeadlist_built (.refl _)
    twoKeyDeadlist_mergeable (by decide)
  obtain rfl := Except.ok.inj (hmerge.symm.trans (rfl : dslDeadlistMerge (fun _ _ => false) twoKeyDeadlist sectorDeadlist.dlTree = _))
  obtain ⟨dl'', hremove, -⟩ := (hbuilt.returns fitsBlock_never).2.2.1 7 ⟨_, mem_cons_of_mem _ mem_cons_self, rfl⟩ ⟨_, mem_cons_self, by decide⟩
  exact ⟨_, hmerge, dl'', hremove⟩

end Unleashed.Zfs
