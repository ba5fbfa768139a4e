import SeriesStore.Proofs.Disk.Tidy

/-!
# Writing sidecars

In a tidy tree a sidecar stands at the place of its file or it does not; there is nothing
between.  Writing the sidecar of a file puts it there in the place of an earlier one and
leaves all others alone.

Writing can fail after it has made directories, but then it leaves no sidecar behind, and
none stood at that place before: a place at which a sidecar can stand is one at which it
can be written again.
-/

namespace SeriesStore.Disk

open SeriesStore.Disk.Path (Plain isImpossible)
open Sidecar (Storable content)

/-- Whether the sidecar of a file stands at its place. -/
structure Stands (root : Location) (tree : Tree) (key : PartitionKey) (file : DataFile) :
    Prop where
  storable : Storable file
  standing : tree.node? (root ++ sidecarPlace key file) = some (.file (content file))

variable {layout : Layout} {root : Location} {tree after : Tree} {key other : PartitionKey}
  {file another : DataFile}

/-- At a place there is one sidecar at most. -/
theorem Stands.unique (first : Stands root tree key file) (second : Stands root tree key another)
    (same : file.SamePlace another) : file = another := by
  have contents := first.standing
  rw [sidecarPlace_eq_iff.mpr ⟨rfl, same⟩, second.standing] at contents
  injection contents with nodes
  injection nodes with bytes
  exact (Sidecar.content_inj second.storable first.storable bytes).symm

theorem stands_of_sameFiles (same : SameFiles tree after) (key : PartitionKey)
    (file : DataFile) : Stands root after key file ↔ Stands root tree key file := by
  constructor
  · rintro ⟨storable, standing⟩
    exact ⟨storable, (same _ _).mp standing⟩
  · rintro ⟨storable, standing⟩
    exact ⟨storable, (same _ _).mpr standing⟩

/-- What a sidecar that is written does to the sidecars that stand. -/
def Wrote (root : Location) (tree after : Tree) (key : PartitionKey) (file : DataFile) : Prop :=
  ∀ other another, Stands root after other another ↔
    (other = key ∧ another = file) ∨
      ¬(other = key ∧ file.SamePlace another) ∧ Stands root tree other another

theorem wrote_put (storable : Storable file) :
    Wrote root tree (tree.put (root ++ sidecarPlace key file) (.file (content file))) key
      file := by
  intro other another
  have ne : root ++ sidecarPlace key file ≠ [] := by simp [sidecarPlace]
  by_cases same : other = key ∧ file.SamePlace another
  · rcases same with ⟨rfl, place⟩
    have here : Stands root
        (tree.put (root ++ sidecarPlace other file) (.file (content file))) other file :=
      ⟨storable, Tree.node?_put_self tree ne _⟩
    constructor
    · intro stands
      exact .inl ⟨rfl, (here.unique stands place).symm⟩
    · rintro (⟨_, rfl⟩ | ⟨elsewhere, _⟩)
      · exact here
      · exact absurd ⟨rfl, place⟩ elsewhere
  · have differ : root ++ sidecarPlace other another ≠ root ++ sidecarPlace key file := by
      intro places
      rcases sidecarPlace_eq_iff.mp (List.append_cancel_left places) with ⟨keys, place⟩
      exact same ⟨keys, place.symm⟩
    constructor
    · rintro ⟨anotherStorable, standing⟩
      rw [Tree.node?_put_of_ne tree differ] at standing
      exact .inr ⟨same, anotherStorable, standing⟩
    · rintro (⟨rfl, rfl⟩ | ⟨_, anotherStorable, standing⟩)
      · exact absurd ⟨rfl, .refl _⟩ same
      · refine ⟨anotherStorable, ?_⟩
        rw [Tree.node?_put_of_ne tree differ, standing]

theorem Wrote.of_sameFiles {made : Tree} (same : SameFiles tree made)
    (wrote : Wrote root made after key file) : Wrote root tree after key file := by
  intro other another
  rw [wrote, stands_of_sameFiles same]

/-- A place at which a sidecar stands is one at which it can be written. -/
theorem Tidy.writable (tidy : Tidy layout root tree) {bytes : List UInt8}
    (standing : tree.node? (root ++ sidecarPlace key file) = some (.file bytes)) :
    Housed key.group ∧
      isImpossible (Path.temporary (layout.sidecarPath key file)) = false := by
  have belongs := tidy.belongs (by simp [sidecarPlace]) standing
  rcases belongs.exists_sidecar with ⟨other, another, place, _, housed, _, possible⟩
  rcases sidecarPlace_eq_iff.mp place with ⟨rfl, same⟩
  have path : layout.sidecarPath key another = layout.sidecarPath key file := by
    rw [Layout.sidecarPath, Layout.sidecarPath, same.space, same.name]
  rw [path] at possible
  exact ⟨housed, possible⟩

/-- Writing the sidecar of a file succeeds, or leaves the sidecars as they are where none
can stand. -/
theorem Tidy.persist_cases (tidy : Tidy layout root tree) (plain : Plain key.group)
    (storable : Storable file) :
    (∃ after, layout.persist key file tree = .ok () after ∧ Tidy layout root after ∧
      Wrote root tree after key file) ∨
    ∃ error after, layout.persist key file tree = .error error after ∧
      Tidy layout root after ∧ SameFiles tree after ∧
      ∀ bytes, tree.node? (root ++ sidecarPlace key file) ≠ some (.file bytes) := by
  rw [layout.persist_eq]
  rcases tidy.makeDirectories_cases file.space plain with
    ⟨made, outcome, madeTidy, same, housed, standing⟩ |
    ⟨error, made, outcome, madeTidy, same, reason⟩
  · rw [outcome]
    dsimp only
    rw [madeTidy.writeSidecar_eq housed storable standing]
    split
    · rename_i impossible
      refine .inr ⟨_, made, rfl, madeTidy, same, fun bytes sidecar => ?_⟩
      rw [(tidy.writable sidecar).2] at impossible
      contradiction
    · rename_i possible
      rw [Bool.not_eq_true] at possible
      exact .inl ⟨_, rfl, madeTidy.put_sidecar housed storable possible standing,
        (wrote_put storable).of_sameFiles same⟩
  · rw [outcome]
    refine .inr ⟨error, made, rfl, madeTidy, same, fun bytes sidecar => ?_⟩
    rcases tidy.writable sidecar with ⟨housed, possible⟩
    rcases reason with impossible | long
    · rw [Layout.sidecarPath, Path.temporary_join] at possible
      rw [Path.isImpossible_of_join (Path.plain_preparedName _).head?_ne possible] at impossible
      contradiction
    · rw [housed.short] at long
      contradiction

/-! ## Several sidecars -/

/-- What sidecars of one partition that are written one after the other do to the sidecars
that stand, when no two of them go to the same place. -/
def WroteAll (root : Location) (tree after : Tree) (key : PartitionKey)
    (files : List DataFile) : Prop :=
  ∀ other another, Stands root after other another ↔
    (other = key ∧ another ∈ files) ∨
      ¬(other = key ∧ ∃ file ∈ files, file.SamePlace another) ∧ Stands root tree other another

theorem Wrote.all {made : Tree} {rest : List DataFile} (first : Wrote root tree made key file)
    (others : WroteAll root made after key rest)
    (apart : ∀ other ∈ rest, ¬ file.SamePlace other) :
    WroteAll root tree after key (file :: rest) := by
  intro other another
  rw [others, first]
  simp only [List.mem_cons, exists_eq_or_imp]
  constructor
  · rintro (⟨rfl, member⟩ | ⟨elsewhere, ⟨rfl, rfl⟩ | ⟨differs, stands⟩⟩)
    · exact .inl ⟨rfl, .inr member⟩
    · exact .inl ⟨rfl, .inl rfl⟩
    · refine .inr ⟨?_, stands⟩
      rintro ⟨rfl, same | same⟩
      · exact differs ⟨rfl, same⟩
      · exact elsewhere ⟨rfl, same⟩
  · rintro (⟨rfl, rfl | member⟩ | ⟨elsewhere, stands⟩)
    · refine .inr ⟨?_, .inl ⟨rfl, rfl⟩⟩
      rintro ⟨_, other, member, same⟩
      exact apart other member same.symm
    · exact .inl ⟨rfl, member⟩
    · refine .inr ⟨?_, .inr ⟨?_, stands⟩⟩
      · rintro ⟨rfl, same⟩
        exact elsewhere ⟨rfl, .inr same⟩
      · rintro ⟨rfl, same⟩
        exact elsewhere ⟨rfl, .inl same⟩

theorem Tidy.persistAll_ok (tidy : Tidy layout root tree) (plain : Plain key.group)
    {files : List DataFile} (storable : ∀ file ∈ files, Storable file)
    (apart : files.Pairwise fun first second => ¬ first.SamePlace second)
    (outcome : layout.persistAll key files tree = .ok () after) :
    Tidy layout root after ∧ WroteAll root tree after key files := by
  induction files generalizing tree with
  | nil =>
      cases outcome
      exact ⟨tidy, fun other another => by simp⟩
  | cons file rest ih =>
      rw [List.pairwise_cons] at apart
      rw [List.forall_mem_cons] at storable
      rw [Layout.persistAll, Tree.bind_eq] at outcome
      rcases tidy.persist_cases plain storable.1 with
        ⟨made, written, madeTidy, wrote⟩ | ⟨error, made, failed, _⟩
      · rw [written] at outcome
        rcases ih madeTidy storable.2 apart.2 outcome with ⟨afterTidy, others⟩
        exact ⟨afterTidy, wrote.all others apart.1⟩
      · rw [failed] at outcome
        contradiction

/-! ## The sidecars of a finished group -/

section Finished

variable {outputs removed : List DataFile}

theorem mem_finishedSidecars (member : file ∈ layout.finishedSidecars key outputs removed) :
    file ∈ outputs ∨ file ∈ removed := by
  rw [Layout.finishedSidecars, List.mem_append] at member
  exact member.imp_right List.mem_of_mem_filter

/-- An output that takes over the place of a member also takes over its sidecar. -/
theorem exists_samePlace_finishedSidecars (plain : Plain key.group) (member : file ∈ removed) :
    ∃ written ∈ layout.finishedSidecars key outputs removed, written.SamePlace file := by
  by_cases replaced : layout.sidecarPath key file ∈ outputs.map (layout.sidecarPath key)
  · rcases List.mem_map.mp replaced with ⟨output, isOutput, paths⟩
    have same := Layout.place_eq_of_sidecarPath plain.single plain.single paths
    exact ⟨output, List.mem_append_left _ isOutput, same.2⟩
  · refine ⟨file, List.mem_append_right _ (List.mem_filter.mpr ⟨member, ?_⟩), .refl file⟩
    simpa using replaced

theorem pairwise_finishedSidecars (outputsDiffer : (outputs.map DataFile.id).Nodup)
    (removedDiffer : (removed.map DataFile.id).Nodup) :
    (layout.finishedSidecars key outputs removed).Pairwise fun first second =>
      ¬ first.SamePlace second := by
  have apart {files : List DataFile} (differ : (files.map DataFile.id).Nodup) :
      files.Pairwise fun first second => ¬ first.SamePlace second :=
    (List.pairwise_map.mp differ).imp fun ne same => ne same.id.symm
  rw [Layout.finishedSidecars, List.pairwise_append]
  refine ⟨apart outputsDiffer, (apart removedDiffer).filter _, ?_⟩
  intro output isOutput member isMember same
  have paths : layout.sidecarPath key output = layout.sidecarPath key member := by
    rw [Layout.sidecarPath, Layout.sidecarPath, same.space, same.name]
  have kept := (List.mem_filter.mp isMember).2
  rw [← paths] at kept
  simp [List.mem_map_of_mem isOutput] at kept

end Finished

end SeriesStore.Disk
