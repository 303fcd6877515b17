import Unleashed.Nvpair.Table

/-!
# The pairs of an nvlist

The list and the table of an nvlist agree, and what each operation makes of the list. The table
finds a pair to remove by its name, or by name and type; on a list with duplicates this may be
another pair than the one that leaves the list. The removals state when it is not by the order of
the bucket, which is reversed when the table is halved.
-/

namespace Unleashed.Nvpair

open Lib Multiset

variable {V : Type} {nvl nvl' : Nvlist V} {nvp : NvPair V}

/-- Two pairs that a list with this flag does not have together. -/
def NvFlag.Clash (nvflag : NvFlag) (nvp1 nvp2 : NvPair V) : Prop :=
  nvflag.uniqueName = true ∧ nvp1.name = nvp2.name ∨
    nvflag.uniqueNameType = true ∧ nvp1.name = nvp2.name ∧ nvp1.type = nvp2.type

instance (nvflag : NvFlag) (nvp1 nvp2 : NvPair V) : Decidable (nvflag.Clash nvp1 nvp2) :=
  inferInstanceAs (Decidable (_ ∨ _))

variable {nvflag : NvFlag}

lemma NvFlag.Clash.symm {nvp1 nvp2 : NvPair V} (h : nvflag.Clash nvp1 nvp2) : nvflag.Clash nvp2 nvp1 :=
  h.imp (And.imp_right Eq.symm) (And.imp_right (And.imp Eq.symm Eq.symm))

/-- **The invariant of an nvlist.** -/
structure Agrees (nvl : Nvlist V) : Prop where
  table : TableHolds nvl nvl.nvpList
  addrs : (nvl.nvpList.map NvPair.addr).Nodup
  unique : nvl.nvpList.Pairwise fun a b => ¬ nvl.nvlNvflag.Clash a b

lemma Agrees.empty (h : Agrees nvl) (hnone : nvl.nvpHashtable = none) : nvl.nvpList = [] := by
  rcases h.table with ⟨-, -, -, hs⟩ | hok
  · exact (coe_eq_zero _).1 hs
  · obtain ⟨tab, htab, -⟩ := hok.table
    rw [hnone] at htab
    cases htab

lemma Agrees.tableOk (h : Agrees nvl) (hmem : nvp ∈ nvl.nvpList) : TableOk nvl nvl.nvpList := by
  rcases h.table with ⟨-, -, -, hs⟩ | hok
  · rw [(coe_eq_zero _).1 hs] at hmem
    exact absurd hmem List.not_mem_nil
  · exact hok

variable {e : NvPair V}

section

/-- The pair is the first of its name in its bucket, or the last if the removal halves the table. -/
def FirstOfName (nvl : Nvlist V) (nvp : NvPair V) (alloc : Bool) : Prop :=
  nvl.nvlNvflag ≠ ⟨false, false⟩ ∨
    if nvl.Shrinks then alloc = false ∨ (nvl.sameName nvp.name).getLast? = some nvp
    else (nvl.sameName nvp.name).head? = some nvp

/-- In the table that `nvt_remove_nvpair` searches, the pair is the first of its name. -/
lemma FirstOfName.lookup {alloc : Bool} (h : Agrees nvl) (hmem : nvp ∈ nvl.nvpList) (hflag : nvl.nvlNvflag = ⟨false, false⟩)
    (hfirst : FirstOfName nvl nvp alloc) (heq : nvtShrinkFirst nvl alloc = .ok (nvl', none)) :
    nvtLookupName nvl' nvp.name = .ok (some nvp) := by
  obtain ⟨nvl1, err, heq1, hok1, -, hcase⟩ := nvtShrinkFirst_spec (h.tableOk hmem) alloc
  rw [heq, Except.ok.injEq, Prod.mk.injEq] at heq1
  obtain ⟨rfl, rfl⟩ := heq1
  rw [nvtLookupName_eq hok1]
  have hfirst := hfirst.resolve_left (not_not.2 hflag)
  rcases hcase with ⟨-, hshrinks, hstays⟩ | ⟨hne, -⟩
  · split_ifs at hfirst with hs
    · obtain ⟨halloc, hrev⟩ := hshrinks hs
      have hlast := hfirst.resolve_left (by rw [halloc]; exact Bool.noConfusion)
      rw [hrev, List.head?_reverse, hlast]
    · rw [hstays hs, hfirst]
  · cases hne

/-- No table is halved while two pairs of the name are left. -/
def RemoveAllOk (nvl : Nvlist V) (name : NvName) : Prop :=
  nvl.nvlNvflag ≠ ⟨false, false⟩ ∨ nvl.nvpList.countP (fun e => decide (e.name = name)) ≤ 1 ∨
    nvl.nvpNbuckets = nvlistHashtableInitSize ∨
    nvl.nvpNbuckets >>> 2 < nvl.nvpNentries - (nvl.nvpList.countP (fun e => decide (e.name = name)) - 2)

variable {name : NvName}

lemma RemoveAllOk.step (h : Agrees nvl) (h' : Agrees nvl') (hcond : RemoveAllOk nvl name) (hmem : nvp ∈ nvl.nvpList)
    (hflag : nvl'.nvlNvflag = nvl.nvlNvflag) (hsize : nvtNeedsToshrink nvl = .ok false → nvl'.nvpNbuckets = nvl.nvpNbuckets)
    (hlen : nvl'.nvpList.length + 1 = nvl.nvpList.length)
    (hcount : nvl'.nvpList.countP (fun e => decide (e.name = name)) + 1 = nvl.nvpList.countP (fun e => decide (e.name = name))) :
    RemoveAllOk nvl' name := by
  have hok := h.tableOk hmem
  rcases hcond with hcond | hcond | hcond
  · exact .inl (hflag ▸ hcond)
  · exact .inr (.inl (by omega))
  · by_cases hone : nvl'.nvpList.countP (fun e => decide (e.name = name)) ≤ 1
    · exact .inr (.inl hone)
    have hn : nvl.nvpNentries = nvl.nvpList.length := hok.count.trans (coe_card _)
    have hn' : nvl'.nvpNentries = nvl'.nvpList.length := by
      rcases h'.table with ⟨-, -, -, hs⟩ | hok'
      · rw [(coe_eq_zero _).1 hs] at hone
        exact absurd (Nat.zero_le 1) hone
      · exact hok'.count.trans (coe_card _)
    have hno : nvtNeedsToshrink nvl = .ok false := by
      rw [nvtNeedsToshrink_eq hok]
      refine congrArg _ (decide_eq_false fun hshrink => ?_)
      rcases hcond with hcond | hcond
      · exact hshrink.1 hcond
      · have := hshrink.2
        omega
    refine .inr (.inr ?_)
    rw [hsize hno, hn']
    rcases hcond with hcond | hcond
    · exact .inl hcond
    · exact .inr (by omega)

variable {alloc : Nat → Bool}

end

end Unleashed.Nvpair
