import HomeScenes.Proofs.SceneStore.Histories

/-!
# Names of accepted scenes

The limit on names is one on what is left of a name without the blanks around it, while the name is
kept with them. So every accepted name has a character that is no blank, and a name that neither
starts nor ends with a blank has at most forty characters, but blanks around a name may make it
longer than that. Every name within this limit is accepted.
-/

namespace HomeScenes

/-- At least one character and at most forty, not counting the blanks around them. -/
def Scene.NameFits (name : String) : Prop :=
  ∃ core, Text.Trimmed name.toList core ∧ 1 ≤ core.length ∧ core.length ≤ maxNameLength

namespace Scene

variable {s : Scene} {name : String}

theorem NameFits.exists_visible (h : NameFits name) :
    ∃ c ∈ name.toList, Text.isBlank c = false := by
  obtain ⟨core, trimmed, any, -⟩ := h
  exact trimmed.exists_visible any

theorem NameFits.length_le (h : NameFits name)
    (first : ∀ c ∈ name.toList.head?, Text.isBlank c = false)
    (last : ∀ c ∈ name.toList.getLast?, Text.isBlank c = false) : name.length ≤ maxNameLength := by
  obtain ⟨core, trimmed, -, short⟩ := h
  rw [← String.length_toList, ← trimmed.eq_self first last]
  exact short

theorem Valid.nameFits (h : s.Valid) : NameFits s.name :=
  h.name

theorem Valid.renamed (h : s.Valid) (fits : NameFits name) : Valid { s with name := name } where
  name := fits
  manual := h.manual
  automatic := h.automatic
  timings := h.timings
  actions := h.actions
  commands := h.commands
  others := h.others
  weekdays := h.weekdays
  window := h.window

theorem Draft.build_ok_scene {d : Draft} {fresh : SceneId} {now : Instant}
    (built : d.build fresh now = .ok s) : s = d.scene fresh now ∧ s.Valid := by
  obtain ⟨described, valid⟩ := (d.build_ok_iff fresh now s).mp built
  exact ⟨described.unique (d.describes_scene fresh now), valid⟩

/-- What else a draft says being in order, its name decides whether it is built. -/
theorem Draft.build_renamed_iff {d : Draft} {fresh : SceneId} {now : Instant}
    (built : d.build fresh now = .ok s) (name : String) :
    (∃ r, build { d with name := some name } fresh now = .ok r ∧ r.name = name) ↔
      NameFits name := by
  constructor
  · rintro ⟨r, again, rfl⟩
    exact (build_ok_scene again).2.nameFits
  · intro fits
    obtain ⟨rfl, valid⟩ := build_ok_scene built
    refine ⟨{ d.scene fresh now with name := name }, ?_, rfl⟩
    exact (build_ok_iff _ fresh now _).mpr ⟨describes_scene _ fresh now, valid.renamed fits⟩

end Scene

namespace SceneStore

open Scene (Draft NameFits maxNameLength)

theorem save_renamed_iff {scene : Scene} (valid : scene.Valid) (s : SceneStore) (name : String) :
    (∃ r, s.save { scene with name := name } = .ok r ∧
      r.scenes.find? scene.id = some { scene with name := name }) ↔ NameFits name := by
  constructor
  · rintro ⟨r, saved, -⟩
    exact (save_ok_iff.mp saved).1.nameFits
  · intro fits
    refine ⟨_, save_ok_iff.mpr ⟨valid.renamed fits, rfl⟩, ?_⟩
    rw [Table.find?_set, if_pos rfl]

theorem Reached.entry_valid {s : SceneStore} (h : Reached s) {e : SceneId × Scene}
    (listed : e ∈ s.scenes.entries) : e.2.Valid :=
  h.valid ((Table.find?_eq_some_iff h.keyed.distinct).mpr listed)

theorem mem_play_save {scene : Scene} (valid : scene.Valid) :
    (scene.id, scene) ∈ (play {} [.save scene]).scenes.entries := by
  show _ ∈ (serve {} (.save scene)).2.scenes.entries
  rw [serve, ask, save_ok_iff.mpr ⟨valid, rfl⟩]
  exact List.mem_singleton.mpr rfl

/-- Scenes that are built and scenes that are stored have names within the limit, and of what is
otherwise in order every name within the limit is accepted and kept as it is, and no other. Such a
name has a character that is no blank, and at most forty characters if it neither starts nor ends
with a blank, but it may have any blanks around it. -/
theorem name_limit_leaves_out_blanks (d : Draft) (fresh : SceneId) (now : Instant)
    (requests : List Request) :
    (∀ s, d.build fresh now = .ok s → NameFits s.name ∧ ∀ name,
      (∃ r, Draft.build { d with name := some name } fresh now = .ok r ∧ r.name = name) ↔
        NameFits name) ∧
    (∀ e ∈ (play {} requests).scenes.entries, NameFits e.2.name ∧ ∀ name,
      (∃ r, (play {} requests).save { e.2 with name := name } = .ok r ∧
        r.scenes.find? e.2.id = some { e.2 with name := name }) ↔ NameFits name) ∧
    ∀ name, NameFits name →
      (∃ c ∈ name.toList, Text.isBlank c = false) ∧
      ((∀ c ∈ name.toList.head?, Text.isBlank c = false) →
        (∀ c ∈ name.toList.getLast?, Text.isBlank c = false) → name.length ≤ maxNameLength) ∧
      ∀ before after, (∀ c ∈ before, Text.isBlank c = true) → (∀ c ∈ after, Text.isBlank c = true) →
        NameFits (String.ofList (before ++ name.toList ++ after)) := by
  refine ⟨fun s built => ?_, fun e listed => ?_, fun name fits => ?_⟩
  · exact ⟨(Draft.build_ok_scene built).2.nameFits, Draft.build_renamed_iff built⟩
  · have valid := (Reached.empty.play requests).entry_valid listed
    exact ⟨valid.nameFits, save_renamed_iff valid _⟩
  · refine ⟨fits.exists_visible, fits.length_le, fun before after front back => ?_⟩
    obtain ⟨core, trimmed, any, short⟩ := fits
    refine ⟨core, ?_, any, short⟩
    rw [String.toList_ofList]
    exact trimmed.padded front back

def overlong : Scene :=
  { Scene.waking.scene ⟨.ofNat 7⟩ (.ofMicros 0) with
    name := String.ofList (List.replicate 40 'a' ++ [' ']) }

theorem overlong_valid : overlong.Valid := by
  have letter : Text.isBlank 'a' = false := by decide
  have letters : Text.Trimmed (List.replicate 40 'a') (List.replicate 40 'a') :=
    ⟨⟨[], [], by simp, by simp, by simp⟩, by simp [letter], by simp [letter]⟩
  have fits : NameFits overlong.name := by
    refine ⟨List.replicate 40 'a', ?_, by decide, by decide⟩
    rw [overlong, String.toList_ofList]
    show Text.Trimmed ([] ++ List.replicate 40 'a' ++ [' ']) _
    exact letters.padded (by simp) (List.forall_mem_singleton.mpr (by decide))
  exact ((Scene.validate_ok_iff _).mp Scene.validate_waking).renamed fits

/-- It is built and stored with more characters in its name than the limit allows. -/
theorem overlong_name_kept :
    (∃ d : Draft, d.build ⟨.ofNat 7⟩ (.ofMicros 0) = .ok overlong) ∧
    (overlong.id, overlong) ∈ (play {} [.save overlong]).scenes.entries ∧
    maxNameLength < overlong.name.length := by
  refine ⟨⟨{ Scene.waking with name := some overlong.name }, ?_⟩, mem_play_save overlong_valid,
    by decide⟩
  exact (Draft.build_ok_iff _ _ _ _).mpr ⟨Draft.describes_scene _ _ _, overlong_valid⟩

/-- The waking scene is built under a name of eighty characters as well: its own name with
tabulators in front of it and ideographic spaces behind it. -/
theorem name_limit_leaves_out_blanks_waking :
    ∃ s name, Scene.waking.build ⟨.ofNat 7⟩ (.ofMicros 0) = .ok s ∧ NameFits s.name ∧
      (s.id, s) ∈ (play {} [.save s]).scenes.entries ∧ name.length = 80 ∧ NameFits name ∧
      ∃ r, Draft.build { Scene.waking with name := some name } ⟨.ofNat 7⟩ (.ofMicros 0) = .ok r ∧
        r.name = name := by
  have valid := (Scene.validate_ok_iff _).mp Scene.validate_waking
  have own := (Draft.build_ok_iff _ _ _ _).mpr ⟨Scene.waking.describes_scene _ _, valid⟩
  obtain ⟨built, stored, names⟩ := name_limit_leaves_out_blanks Scene.waking ⟨.ofNat 7⟩
    (.ofMicros 0) [.save (Scene.waking.scene ⟨.ofNat 7⟩ (.ofMicros 0))]
  obtain ⟨fits, -⟩ := stored _ (mem_play_save valid)
  have padded := (names _ fits).2.2 (List.replicate 70 '\t') ['\u3000', '\u3000']
    (fun c tab => List.eq_of_mem_replicate tab ▸ rfl) (by simp [Text.isBlank, Text.blankRanges])
  obtain ⟨-, renamed⟩ := built _ own
  exact ⟨_, _, own, fits, mem_play_save valid, by decide, padded, (renamed _).mpr padded⟩

end SceneStore

end HomeScenes
