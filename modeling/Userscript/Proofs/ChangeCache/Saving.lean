import Userscript.Proofs.Build.Feedback
import Userscript.Proofs.ChangeCache.Persistence
import Userscript.Proofs.Tree.Writable

/-!
# Saving a change cache and loading it

A change cache that is saved where a file can be written is loaded with the same entries, whatever characters the
paths are made of, and with the time at which it was saved.

## Main results

* `loadCache_saveCache` — what was saved is loaded
-/

namespace Userscript.ChangeCache

variable {c : ChangeCache} {host : Host} {world : World}

/-- Where a file can be written, the file holds the cache with the time of the host. -/
theorem exists_run_saveCache (h : world.tree.Writable c.path) (host : Host) : ∃ after,
    Build.saveCache c host world = (.ok { c with lastBuild := host.clock }, after) ∧
      after.tree.read c.path = .ok (Utf8.encode { c with lastBuild := host.clock }.encode) := by
  obtain ⟨t, hwrite⟩ := h.exists_writeFile (Utf8.encode { c with lastBuild := host.clock }.encode) world.nextStamp
  have hsave := Build.run_saveCache h.nul host world
  rw [hwrite] at hsave
  exact ⟨_, hsave, Tree.read_writeFile hwrite⟩

/-- A cache with one entry for each path, under its own text and with numbers that are not too long, is loaded
with the same entries and the same time from the file in which it was saved. -/
theorem loadCache_saveCache (hlasting : Lasting c.entries) (hwritable : world.tree.Writable c.path)
    (hfinite : host.clock.IsFinite) (hpositive : host.clock.isPositive) :
    ∃ saved after, Build.saveCache c host world = (.ok saved, after) ∧
      saved = { c with lastBuild := host.clock } ∧
      ∀ log, ∃ loaded, (Build.loadCache c.path after.tree log).1 = .ok loaded ∧ loaded.path = c.path ∧
        loaded.entries.Perm c.entries ∧ (∀ key, loaded.entries.get? key = c.entries.get? key) ∧
        loaded.lastBuild = saved.lastBuild := by
  obtain ⟨after, hsave, hread⟩ := exists_run_saveCache hwritable host
  refine ⟨_, after, hsave, rfl, fun log => ?_⟩
  obtain ⟨time, hload, htime⟩ := exists_loadCache_of_lasting hread hlasting log
  exact ⟨_, hload, rfl, sorted_perm c.entries, get?_sorted hlasting, htime hfinite hpositive⟩

/-- The paths hold a quotation mark, a backslash, a line feed, an accent and a character beyond 16 bits. -/
theorem loadCache_saveCache_escaped :
    let entry (s : String) (stamp size : Int) : WideText × Entry := (.proper s, ⟨.proper s, ⟨stamp, size⟩⟩)
    let c : ChangeCache := {
      path := Path.ofString "/cache.json"
      entries := [entry "/p/\"b\\\n.js" (-1) 0, entry "/p/é😀.js" 1700000000123456789 42] }
    let host : Host := { Build.bareHost with clock := .finite false (2 ^ 52 + 1) (-22) }
    let world : World := { tree := { root := .folder [] } }
    Lasting c.entries ∧ world.tree.Writable c.path ∧ host.clock.IsFinite ∧ host.clock.isPositive ∧
      ∃ saved after, Build.saveCache c host world = (.ok saved, after) ∧
        saved = { c with lastBuild := host.clock } ∧
        ∀ log, ∃ loaded, (Build.loadCache c.path after.tree log).1 = .ok loaded ∧ loaded.path = c.path ∧
          loaded.entries.Perm c.entries ∧ (∀ key, loaded.entries.get? key = c.entries.get? key) ∧
          loaded.lastBuild = saved.lastBuild := by
  intro entry c host world
  have hlasting : Lasting c.entries := by
    refine ⟨by decide +kernel, ?_, ?_, ?_⟩
    · exact List.forall_mem_cons.2 ⟨⟨_, rfl⟩, List.forall_mem_singleton.2 ⟨_, rfl⟩⟩
    · exact List.forall_mem_cons.2 ⟨rfl, List.forall_mem_singleton.2 rfl⟩
    · refine List.forall_mem_cons.2 ⟨?_, List.forall_mem_singleton.2 ?_⟩ <;>
        exact Stat.isShort_iff.2 (by decide +kernel)
  have hwritable : world.tree.Writable c.path := by
    refine ⟨by decide +kernel, by decide +kernel, ["cache.json"], by rfl, by decide +kernel⟩
  have hfinite : host.clock.IsFinite := ⟨_, _, _, rfl, by decide +kernel⟩
  exact ⟨hlasting, hwritable, hfinite, rfl, loadCache_saveCache hlasting hwritable hfinite rfl⟩

end Userscript.ChangeCache
