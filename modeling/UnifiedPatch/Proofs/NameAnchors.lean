import UnifiedPatch.Proofs.MarkerNames
import UnifiedPatch.Proofs.SectionSearch
import UnifiedPatch.Proofs.WrittenLines

/-!
# Where stripped names hang

A path under a directory is written without a slash in front, and a name that
begins with one hangs in the root whatever the directory is. Stripping takes the
slash of `/etc/x` off, since an empty segment stands in front of it. It does not
always leave a name without one. Of `b//etc/x` the first segment is dropped and
the empty one behind it is the first of the rest: exactly if the slash that ends
the last dropped segment has another slash behind it does the name begin with a
slash (`head?_eq_slash_iff`).

So the targets of a run are in the directory that was asked for, except
those of names with such a doubled slash, and these are not in any
directory (`hangs_of_stripped`).
-/

namespace UnifiedPatch

/-! ## Names and directories -/

namespace Path

/-- A path leads into a directory by its text: it begins with the
directory's segments. -/
structure Below (dir p : Path) : Prop where
  anchor : p.anchor = dir.anchor
  segments : dir.segments <+: p.segments

theorem anchorOf_eq_working_iff {s : Bytes} :
    anchorOf s = .working ↔ s.head? ≠ some Bytes.slash := by
  unfold anchorOf Bytes.slash
  split
  · simp
  · simp
  · simp
  · next h => cases s <;> simp_all

theorem below_join {name : Bytes} (h : name.head? ≠ some Bytes.slash)
    (dir : Path) :
    dir.Below (dir.join name) := by
  have hjoin : dir.join name =
      { dir with segments := dir.segments ++ (ofBytes name).segments } :=
    if_pos (anchorOf_eq_working_iff.2 h)
  rw [hjoin]
  exact ⟨rfl, List.prefix_append _ _⟩

theorem join_of_slash {name : Bytes} (h : name.head? = some Bytes.slash)
    (dir : Path) :
    dir.join name = ofBytes name :=
  if_neg fun hworking => anchorOf_eq_working_iff.1 hworking h

end Path

/-! ## Names after stripping -/

namespace Marker

variable {level : Int} {full name : Bytes}

/-- The slash that ends the last of `level` segments has another slash
behind it. -/
def Doubled (level : Int) (full : Bytes) : Prop :=
  ∃ front back : Bytes, full = front ++ Bytes.slash :: Bytes.slash :: back ∧
    (front.count Bytes.slash : Int) + 1 = level

/-- Dropping segments leaves an empty one in front of others if the name is
doubled there. -/
theorem dropSegments_of_doubled (h : Doubled level full) :
    ∃ more, more ≠ [] ∧ dropSegments level (Bytes.splitOn Bytes.slash full) =
      [] :: more := by
  obtain ⟨front, back, rfl, hcount⟩ := h
  have hfront := Bytes.length_splitOn Bytes.slash front
  have hsplit : Bytes.splitOn Bytes.slash
      (front ++ Bytes.slash :: Bytes.slash :: back) =
      Bytes.splitOn Bytes.slash front ++
        [] :: Bytes.splitOn Bytes.slash back := by
    rw [Bytes.splitOn_append_sep]
    rfl
  have hback := List.length_pos_iff.2 (Bytes.splitOn_ne_nil Bytes.slash back)
  refine ⟨Bytes.splitOn Bytes.slash back, Bytes.splitOn_ne_nil _ _, ?_⟩
  have hdrop : min level.toNat ((Bytes.splitOn Bytes.slash front ++
      [] :: Bytes.splitOn Bytes.slash back).length - 1) =
        (Bytes.splitOn Bytes.slash front).length := by
    simp only [List.length_append, List.length_cons]
    omega
  rw [hsplit, dropSegments, hdrop, List.drop_left]

theorem doubled_of_dropSegments (hlevel : 1 ≤ level) {more : List Bytes}
    (hmore : more ≠ [])
    (h : dropSegments level (Bytes.splitOn Bytes.slash full) = [] :: more) :
    Doubled level full := by
  generalize hsegments : Bytes.splitOn Bytes.slash full = segments at h
  -- Two segments are left, so as many were dropped as the level says.
  have hlength := congrArg List.length h
  have hpos := List.length_pos_iff.2 hmore
  simp only [dropSegments, List.length_drop, List.length_cons] at hlength
  have hdrop : segments.drop level.toNat = [[]] ++ more := by
    rw [List.singleton_append, ← h, dropSegments, Nat.min_eq_left (by omega)]
  generalize hfront : segments.take level.toNat = front
  have hsplit : segments = front ++ ([[]] ++ more) := by
    rw [← hdrop, ← hfront, List.take_append_drop]
  have hlevel' : front.length = level.toNat := by
    rw [← hfront, List.length_take]
    omega
  have hne : front ≠ [] := List.length_pos_iff.1 (by omega)
  refine ⟨Bytes.joinWith Bytes.slash front,
    Bytes.joinWith Bytes.slash more, ?_, ?_⟩
  · calc full = Bytes.joinWith Bytes.slash (front ++ ([[]] ++ more)) := by
          rw [← hsplit, ← hsegments, Bytes.joinWith_splitOn]
      _ = _ := by
          rw [Bytes.joinWith_append hne (by simp),
            Bytes.joinWith_append (by simp) hmore]
          rfl
  · have hcount :=
      Bytes.length_splitOn Bytes.slash (Bytes.joinWith Bytes.slash front)
    rw [Bytes.splitOn_joinWith hne fun segment
      hmem => Bytes.sep_not_mem_of_mem_splitOn
      (hsegments ▸ List.mem_of_mem_take (hfront ▸ hmem)), hlevel'] at hcount
    omega

/-- A stripped name begins with a slash if one follows the last that
was dropped. -/
theorem head?_eq_slash_iff (hlevel : 1 ≤ level) (h : Stripped level full name) :
    name.head? = some Bytes.slash ↔ Doubled level full := by
  obtain rfl := stripped_iff.1 h
  have hsegments :
    ∀ segment ∈ dropSegments level (Bytes.splitOn Bytes.slash full),
      Bytes.slash ∉ segment :=
    fun segment hmem =>
      Bytes.sep_not_mem_of_mem_splitOn (List.mem_of_mem_drop hmem)
  rw [Bytes.head?_joinWith_eq_iff hsegments]
  exact ⟨fun ⟨more, hmore, hdrop⟩ => doubled_of_dropSegments hlevel hmore hdrop,
    dropSegments_of_doubled⟩

/-- A marker line does not begin with a blank. -/
theorem Bears.head?_ne_blank {marker : Bytes} {line : Line}
    (hmarker : marker ∈ [old, new]) (h : Bears marker full line) :
    line.head? ≠ some 32 := by
  obtain ⟨tail, rfl, -⟩ := h
  rcases List.mem_pair.1 hmarker with rfl | rfl <;> simp [old, new, Bytes.ascii]

end Marker

/-! ## The names in a patch -/

namespace Run

open Marker

variable {settings : Settings} {patch : Bytes} {tree : FileTree} {v : Visit}

/-- A section has its name from a marker line of the patch. -/
theorem exists_bears_of_mem_visits
    (h : v ∈ Run.visits settings { tree, patch := .ofBytes patch }) :
    ∃ marker ∈ [old, new], ∃ line ∈ patch.lines, ∃ full,
      Bears marker full line ∧ Stripped settings.stripLevel full v.name := by
  obtain ⟨r, hleft, hmeets⟩ := exists_meets_of_mem_visits h
  obtain ⟨n, hfinds, -⟩ := Section.next_iff_finds.1 hmeets.found
  generalize hlines : r.patch.ready = lines at hfinds hleft
  cases hfinds with
  | @pair l newLine behind name marked tells =>
      obtain ⟨full, hsubject, hstripped⟩ := tells
      rcases hsubject with ⟨-, hold⟩ | ⟨-, hnew⟩
      · have hmem : l.oldLine ∈ l.lines ++ newLine :: behind := by
          simp [Section.Lead.lines]
        exact ⟨old, by simp, l.oldLine,
          hleft.mem_of_head? hmem (hold.head?_ne_blank (by simp)), full, hold,
          hstripped⟩
      · have hmem : newLine ∈ l.lines ++ newLine :: behind := by simp
        exact ⟨new, by simp, newLine,
          hleft.mem_of_head? hmem (hnew.head?_ne_blank (by simp)), full, hnew,
          hstripped⟩

end Run

/-- Where a name hangs that was stripped: below the directory, unless it
was doubled at the level; then in the root, and in the same place for
every directory. -/
structure Hangs (settings : Settings) (full name : Bytes) : Prop where
  slash : name.head? = some Bytes.slash ↔
    Marker.Doubled settings.stripLevel full
  below : ¬ Marker.Doubled settings.stripLevel full →
    settings.directory.Below (settings.directory.join name)
  elsewhere : Marker.Doubled settings.stripLevel full → ∀ dir : Path,
    (dir.join name).anchor ≠ .working ∧ dir.join name = Path.ofBytes name

theorem hangs_of_stripped {settings : Settings} {full name : Bytes}
    (hlevel : 1 ≤ settings.stripLevel)
    (h : Marker.Stripped settings.stripLevel full name) :
    Hangs settings full name := by
  have hslash := Marker.head?_eq_slash_iff hlevel h
  refine ⟨hslash, fun hnot => Path.below_join (hslash.not.2 hnot) _,
    fun hdoubled dir => ?_⟩
  have hjoin := Path.join_of_slash (hslash.2 hdoubled) dir
  rw [hjoin]
  exact ⟨fun hworking => Path.anchorOf_eq_working_iff.1 hworking
    (hslash.2 hdoubled), rfl⟩

/-- At every level from one on, the name that is read off a marker line begins
with a slash exactly if the name on the line is doubled at the level. All other
names keep the directory in front when they are joined to it. What a run opens
for a section is at the joined path of such a name, so it leaves the directory
for doubled names only. -/
theorem stripped_names_hang (settings : Settings)
    (hlevel : 1 ≤ settings.stripLevel) :
    (∀ marker line name,
      Marker.name? marker settings.stripLevel line = some name →
      ∃ full, Marker.Bears marker full line ∧ Hangs settings full name) ∧
    ∀ patch tree, ∀ v ∈ Run.visits settings { tree, patch := .ofBytes patch },
      (∃ marker ∈ [Marker.old, Marker.new], ∃ line ∈ patch.lines, ∃ full,
        Marker.Bears marker full line ∧ Hangs settings full v.name) ∧
      ∀ o, v.opened.result = .ok o →
        o.target.path = settings.directory.join v.name := by
  constructor
  · intro marker line name hread
    obtain ⟨full, hfull, hstripped⟩ := Marker.name?_eq_some_iff.1 hread
    exact ⟨full, hfull, hangs_of_stripped hlevel hstripped⟩
  · intro patch tree v hv
    obtain ⟨marker, hmarker, line, hline, full, hfull, hstripped⟩ :=
      Run.exists_bears_of_mem_visits hv
    refine ⟨⟨marker, hmarker, line, hline, full, hfull,
      hangs_of_stripped hlevel hstripped⟩, ?_⟩
    intro o hopen
    rw [Target.path_acquire hopen, Run.settings_of_mem_visits hv]

/-- A section with a name that is doubled behind its first segment. -/
def doubledName : Bytes := Bytes.ascii "--- a//etc/x\n+++ b//etc/x\n"

/-- The name is read with a slash in front, and the target of the section is in
the root. -/
theorem stripped_names_hang_doubledName :
    (∃ full, Marker.Bears Marker.new full (Bytes.ascii "+++ b//etc/x\n") ∧
      Hangs { directory := ⟨.working, []⟩ } full (Bytes.ascii "/etc/x")) ∧
    ∃ v ∈ Run.visits { directory := ⟨.working, []⟩ }
        { tree := .oneFile, patch := .ofBytes doubledName },
      v.path = ⟨.root, [Bytes.ascii "etc", Bytes.ascii "x"]⟩ ∧
      ∃ marker ∈ [Marker.old, Marker.new], ∃ line ∈ doubledName.lines, ∃ full,
        Marker.Bears marker full line ∧ Hangs
          { directory := ⟨.working, []⟩ } full v.name := by
  obtain ⟨hread, hvisits⟩ :=
    stripped_names_hang { directory := ⟨.working, []⟩ } (by decide)
  have hmem := List.getElem_mem
    (show 0 < (Run.visits { directory := ⟨.working, []⟩ }
    { tree := .oneFile, patch := .ofBytes doubledName }).length by
      decide +kernel)
  exact ⟨hread Marker.new _ _ (by decide +kernel), _, hmem, by decide +kernel,
    (hvisits doubledName .oneFile _ hmem).1⟩

/-- Stripping does not leave all names without a slash in front. -/
theorem not_forall_stripped_relative :
    ¬ ∀ (marker : Bytes) (level : Int) (line : Line) (name : Bytes), 1 ≤ level →
      Marker.name? marker level line = some name →
      name.head? ≠ some Bytes.slash :=
  fun h => h Marker.new 1 (Bytes.ascii "+++ b//etc/x\n") (Bytes.ascii "/etc/x")
    (by decide) (by decide +kernel) (by decide +kernel)

end UnifiedPatch
