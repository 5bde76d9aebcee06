import HomeScenes.Proofs.Wire.Values
import HomeScenes.Wire.Device

/-!
# Records read back

Every record is read back from its JSON form. Fields are found by name, a tag and the
fields beside it are told apart because no two of them share a name, and the fields of a
part that stands beside those of its record are what is left when those are taken out.
Each record has a claim about those of its parts that text does not carry in every case.
-/

namespace HomeScenes

open Json (GivesBack Node deepest givesBack_fields givesBack_tagged givesBack_split givesBack_text
  givesBack_bool givesBack_items givesBack_textOption carried_object carried_array carried_text
  carried_bool carried_word carried_option)

/-- A claim about each part of a record that text does not carry in every case: its attribute
values, with the number of containers around them in the text, its times of day and its
instants. -/
structure Parts where
  value : Nat → AttributeValue → Prop
  time : TimeOfDay → Prop
  instant : Instant → Prop

/-- What parts have to be like for their text to be read back. -/
def Parts.writable : Parts where
  value around v := v.Canonical around ∧ v.FloatsReadBack
  time := TimeOfDay.Showable
  instant := Instant.Showable

namespace AttributeRef

theorem service_givesBack (k : UInt32) : GivesBack serviceOfNode? (.int k.toNat) k :=
  fun _ _ _ => by rw [serviceOfNode?, Json.word_node]

theorem ofFields?_eq {a : AttributeRef} {service name : Node}
    (hs : serviceOfNode? service = some a.service) (hn : name.text? = some a.name) :
    ofFields? [some service, some name] = some a := by
  simp only [ofFields?, Node.required?, Option.bind_some, hs, hn, Option.bind_eq_bind,
    Option.pure_def]

theorem givesBack (a : AttributeRef) : GivesBack ofNode? a.toJson a :=
  givesBack_fields fieldNames (by decide) rfl fun depth settled fits =>
    ofFields?_eq (service_givesBack a.service depth settled (fits _ List.mem_cons_self))
      (givesBack_text a.name depth settled (fits _ (List.mem_cons_of_mem _ List.mem_cons_self)))

theorem carried_members (a : AttributeRef) {around : Nat} (room : around ≤ deepest) :
    ∀ m ∈ a.members, m.2.Carried around := by
  simp only [members, List.forall_mem_cons]
  exact ⟨carried_word room a.service, carried_text room a.name, by simp⟩

theorem carried (a : AttributeRef) {around : Nat} (room : around < deepest) :
    a.toJson.Carried around :=
  carried_object room (a.carried_members room)

end AttributeRef

namespace Command

def Each (p : Parts) (around : Nat) (c : Command) : Prop :=
  p.value (around + 1) c.value

theorem givesBack {c : Command} {around : Nat} (h : c.Each .writable around) :
    GivesBack ofNode? c.toJson c := by
  refine givesBack_split [("value", c.value.toJson)] c.target.members
    ["value", "instance_id", "attribute"] (by decide) rfl (.inr rfl)
    fun depth settled fits rest => ?_
  have value := h.1.givesBack (depth + 1) settled (fits _ List.mem_cons_self)
  have target := c.target.givesBack depth true rest
  simp only [AttributeRef.toJson] at target
  simp only [List.map_cons, List.map_nil, Node.required?, Option.bind_some, value, target,
    Option.bind_eq_bind, Option.pure_def]

theorem carried {c : Command} {around : Nat} (h : c.Each .writable around)
    (room : around < deepest) : c.toJson.Carried around := by
  refine carried_object room fun m hm => ?_
  rcases List.mem_append.1 hm with place | value
  · exact c.target.carried_members room m place
  · rw [List.mem_singleton.1 value]
    exact h.1.carried h.2 room

end Command

namespace Window

def Each (p : Parts) : Window → Prop
  | allDay => True
  | between start stop => p.time start ∧ p.time stop

theorem givesBack {w : Window} (h : w.Each .writable) : GivesBack ofNode? w.toJson w := by
  cases w with
  | allDay =>
    exact givesBack_tagged (by decide) [] (by decide) rfl fun depth settled fits => by
      rw [Json.node_object]
      rfl
  | between start stop =>
    refine givesBack_tagged (by decide) ["start", "end"] (by decide) rfl
      (givesBack_fields ["start", "end"] (by decide) rfl fun depth settled fits => ?_)
    simp only [List.forall_mem_cons] at fits
    simp only [List.map_cons, List.map_nil, Node.required?, Option.bind_some,
      TimeOfDay.givesBack h.1 _ _ fits.1, TimeOfDay.givesBack h.2 _ _ fits.2.1,
      Option.bind_eq_bind, Option.pure_def]

theorem carried (w : Window) {around : Nat} (room : around < deepest) :
    w.toJson.Carried around := by
  cases w with
  | allDay =>
    refine carried_object room ?_
    simp only [List.forall_mem_cons]
    exact ⟨carried_text room _, by simp⟩
  | between start stop =>
    refine carried_object room ?_
    simp only [List.forall_mem_cons]
    exact ⟨carried_text room _, carried_text room _, carried_text room _, by simp⟩

end Window

namespace Condition

def Each (p : Parts) (around : Nat) (c : Condition) : Prop :=
  match c.kind with
  | .timing t => p.time t
  | .status _ _ _ value => p.value (around + 1) value

theorem kind_givesBack {c : Condition} {around : Nat} (h : c.Each .writable around) :
    GivesBack Kind.ofNode? (.object c.kind.members) c.kind := by
  obtain ⟨id, kind⟩ := c
  cases kind with
  | timing t =>
    refine givesBack_tagged (by decide) ["at"] (by decide) rfl
      (givesBack_fields ["at"] (by decide) rfl fun depth settled fits => ?_)
    simp only [List.forall_mem_cons] at fits
    simp only [List.map_cons, List.map_nil, Node.required?, Option.bind_some,
      TimeOfDay.givesBack h _ _ fits.1, Option.map_some]
  | status device attr comparison value =>
    refine givesBack_tagged (by decide) ["device_id", "attribute", "operator", "value"] (by decide)
      rfl (givesBack_fields ["device_id", "attribute", "operator", "value"] (by decide) rfl
        fun depth settled fits => ?_)
    simp only [List.forall_mem_cons] at fits
    obtain ⟨hd, ha, hc, hv, -⟩ := fits
    simp only [List.map_cons, List.map_nil, Node.required?, Option.bind_some,
      device.givesBack _ _ hd, attr.givesBack _ _ ha, comparison.givesBack _ _ hc,
      h.1.givesBack _ _ hv, Option.bind_eq_bind, Option.pure_def]

theorem givesBack {c : Condition} {around : Nat} (h : c.Each .writable around) :
    GivesBack ofNode? c.toJson c := by
  have keys : ∃ names, ("id" :: names).Nodup ∧ c.kind.members.map Prod.fst = names := by
    rcases c with ⟨id, _ | _⟩
    · exact ⟨["type", "at"], by decide, rfl⟩
    · exact ⟨["type", "device_id", "attribute", "operator", "value"], by decide, rfl⟩
  obtain ⟨names, nodup, keys⟩ := keys
  refine givesBack_split [("id", c.id.toJson)] c.kind.members ("id" :: names) nodup
    (congrArg ("id" :: ·) keys) (.inl rfl) fun depth settled fits rest => ?_
  have id := c.id.givesBack _ settled (fits _ List.mem_cons_self)
  simp only [List.map_cons, List.map_nil, Node.required?, Option.bind_some, id,
    kind_givesBack h _ _ rest, Option.bind_eq_bind, Option.pure_def]

theorem carried {c : Condition} {around : Nat} (h : c.Each .writable around)
    (room : around + 1 < deepest) : c.toJson.Carried around := by
  have inner : around + 1 ≤ deepest := room.le
  refine carried_object (by omega) (List.forall_mem_cons.2 ⟨carried_text inner _, ?_⟩)
  obtain ⟨id, kind⟩ := c
  cases kind with
  | timing t =>
    simp only [Kind.members, List.forall_mem_cons]
    exact ⟨carried_text inner _, carried_text inner _, by simp⟩
  | status device attr comparison value =>
    simp only [Kind.members, List.forall_mem_cons]
    exact ⟨carried_text inner _, carried_text inner _, attr.carried room, carried_text inner _,
      h.1.carried h.2 inner, by simp⟩

end Condition

namespace Action

def Each (p : Parts) (around : Nat) (a : Action) : Prop :=
  match a.kind with
  | .control _ commands => ∀ c ∈ commands, c.Each p (around + 2)
  | _ => True

theorem delay_givesBack (k : UInt32) : GivesBack delayOfNode? (.int k.toNat) k :=
  fun _ _ _ => by rw [delayOfNode?, Json.word_node]

theorem sceneOfFields_givesBack (id : SceneId) :
    GivesBack sceneOfFields? (.object [("scene_id", id.toJson)]) id := by
  refine givesBack_fields ["scene_id"] (by decide) rfl fun depth settled fits => ?_
  simp only [List.map_cons, List.map_nil, Node.required?, Option.bind_some,
    id.givesBack _ _ (fits _ List.mem_cons_self)]

theorem kind_givesBack {a : Action} {around : Nat} (h : a.Each .writable around) :
    GivesBack Kind.ofNode? (.object a.kind.members) a.kind := by
  obtain ⟨id, delay, kind⟩ := a
  cases kind with
  | control device commands =>
    refine givesBack_tagged (by decide) ["device_id", "commands"] (by decide) rfl ?_
    simp only
    refine givesBack_fields ["device_id", "commands"] (by decide) rfl fun depth settled fits => ?_
    have each := givesBack_items fun c hc => Command.givesBack (h c hc)
    simp only [List.forall_mem_cons] at fits
    have items := each _ settled fits.2.1
    simp only [List.map_cons, List.map_nil, Node.required?, Option.bind_some,
      device.givesBack _ _ fits.1, commandsOfNode?, items, Option.bind_eq_bind, Option.pure_def]
  | run scene | enable scene | disable scene =>
    refine givesBack_tagged (by decide) ["scene_id"] (by decide) rfl ?_
    simp only
    exact (sceneOfFields_givesBack scene).map _

theorem givesBack {a : Action} {around : Nat} (h : a.Each .writable around) :
    GivesBack ofNode? a.toJson a := by
  have keys : ∃ names, ("id" :: "delay_seconds" :: names).Nodup ∧
      a.kind.members.map Prod.fst = names := by
    rcases a with ⟨id, delay, _ | _ | _ | _⟩
    · exact ⟨["type", "device_id", "commands"], by decide, rfl⟩
    all_goals exact ⟨["type", "scene_id"], by decide, rfl⟩
  obtain ⟨names, nodup, keys⟩ := keys
  refine givesBack_split [("id", a.id.toJson), ("delay_seconds", .int a.delay.toNat)]
    a.kind.members ("id" :: "delay_seconds" :: names) nodup
    (congrArg ("id" :: "delay_seconds" :: ·) keys) (.inl rfl) fun depth settled fits rest => ?_
  simp only [List.forall_mem_cons] at fits
  have id := a.id.givesBack _ settled fits.1
  have delay := delay_givesBack a.delay _ settled fits.2.1
  simp only [List.map_cons, List.map_nil, Node.required?, Option.bind_some, id, delay,
    kind_givesBack h _ _ rest, Option.bind_eq_bind, Option.pure_def]

theorem carried {a : Action} {around : Nat} (h : a.Each .writable around)
    (room : around + 2 < deepest) : a.toJson.Carried around := by
  have inner : around + 1 ≤ deepest := by omega
  refine carried_object (by omega) (List.forall_mem_cons.2 ⟨carried_text inner _,
    List.forall_mem_cons.2 ⟨carried_word inner a.delay, ?_⟩⟩)
  obtain ⟨id, delay, kind⟩ := a
  cases kind with
  | control device commands =>
    have each : ∀ v ∈ commands.map Command.toJson, v.Carried (around + 2) := by
      rw [List.forall_mem_map]
      exact fun c hc => Command.carried (h c hc) room
    simp only [Kind.members, List.forall_mem_cons]
    exact ⟨carried_text inner _, carried_text inner _, carried_array (by omega) each, by simp⟩
  | run scene | enable scene | disable scene =>
    simp only [Kind.members, List.forall_mem_cons]
    exact ⟨carried_text inner _, carried_text inner _, by simp⟩

end Action

namespace Scene

def Each (p : Parts) (s : Scene) : Prop :=
  s.window.Each p ∧ (∀ c ∈ s.conditions, c.Each p 2) ∧ (∀ a ∈ s.actions, a.Each p 2) ∧
    p.instant s.createdAt ∧ ∀ t ∈ s.deletedAt, p.instant t

theorem givesBack {s : Scene} (h : s.Each .writable) : GivesBack ofNode? s.toJson s := by
  obtain ⟨window, conditions, actions, createdAt, deletedAt⟩ := h
  refine givesBack_fields fieldNames (by decide) rfl fun depth settled fits => ?_
  simp only [List.forall_mem_cons] at fits
  obtain ⟨f1, f2, f3, f4, f5, f6, f7, f8, f9, f10, f11, f12, -⟩ := fits
  have conditions := givesBack_items fun c hc => Condition.givesBack (conditions c hc)
  have conditions := conditions _ settled f9
  have actions := givesBack_items fun a ha => Action.givesBack (actions a ha)
  have actions := actions _ settled f10
  have deletedAt := Instant.givesBack_option deletedAt _ settled f12
  simp only [List.map_cons, List.map_nil, Node.required?, Option.bind_some, Node.absentOr?,
    s.id.givesBack _ _ f1, givesBack_text _ _ _ f2, givesBack_bool _ _ _ f3,
    givesBack_bool _ _ _ f4, s.logic.givesBack _ _ f5, Window.givesBack window _ _ f6,
    s.recurrence.givesBack _ _ f7, s.weekdays.givesBack _ _ f8, conditionsOfNode?, conditions,
    actionsOfNode?, actions, Instant.givesBack createdAt _ _ f11, deletedAt,
    Option.bind_eq_bind, Option.pure_def]

theorem carried {s : Scene} (h : s.Each .writable) : s.toJson.Carried 0 := by
  obtain ⟨window, conditions, actions, createdAt, deletedAt⟩ := h
  have conditions : ∀ v ∈ s.conditions.map Condition.toJson, v.Carried 2 := by
    rw [List.forall_mem_map]
    exact fun c hc => Condition.carried (conditions c hc) (by decide)
  have actions : ∀ v ∈ s.actions.map Action.toJson, v.Carried 2 := by
    rw [List.forall_mem_map]
    exact fun a ha => Action.carried (actions a ha) (by decide)
  have text := fun s => carried_text (by decide : 0 + 1 ≤ deepest) s
  have bool := fun b => carried_bool (by decide : 0 + 1 ≤ deepest) b
  refine carried_object (by decide) ?_
  simp only [List.forall_mem_cons]
  exact ⟨text _, text _, bool _, bool _, text _, s.window.carried (by decide), text _, text _,
    carried_array (by decide) conditions, carried_array (by decide) actions, text _,
    carried_option (by decide) fun t _ => text _, by simp⟩

end Scene

namespace Device

def Each (p : Parts) (d : Device) : Prop :=
  ∀ t ∈ d.deletedAt, p.instant t

theorem givesBack {d : Device} (h : d.Each .writable) : GivesBack ofNode? d.toJson d := by
  refine givesBack_fields fieldNames (by decide) rfl fun depth settled fits => ?_
  simp only [List.forall_mem_cons] at fits
  obtain ⟨f1, f2, f3, f4, f5, f6, f7, -⟩ := fits
  simp only [List.map_cons, List.map_nil, Node.required?, Option.bind_some, Node.absentOr?,
    d.id.givesBack _ _ f1, givesBack_text _ _ _ f2, givesBack_textOption _ _ _ f3,
    givesBack_textOption _ _ _ f4, givesBack_text _ _ _ f5, givesBack_text _ _ _ f6,
    Instant.givesBack_option h _ _ f7, Option.bind_eq_bind, Option.pure_def]

theorem carried (d : Device) : d.toJson.Carried 0 := by
  have text := fun s => carried_text (by decide : 0 + 1 ≤ deepest) s
  have option := fun o => carried_option (by decide : 0 + 1 ≤ deepest) fun s (_ : s ∈ o) => text s
  refine carried_object (by decide) ?_
  simp only [List.forall_mem_cons]
  exact ⟨text _, text _, option _, option _, text _, text _,
    carried_option (by decide) fun t _ => text _, by simp⟩

end Device

namespace DeviceEvent

def Each (p : Parts) (e : DeviceEvent) : Prop :=
  p.value 1 e.value ∧ p.instant e.timestamp

theorem givesBack {e : DeviceEvent} (h : e.Each .writable) : GivesBack ofNode? e.toJson e := by
  refine givesBack_fields fieldNames (by decide) rfl fun depth settled fits => ?_
  simp only [List.forall_mem_cons] at fits
  obtain ⟨f1, f2, f3, f4, -⟩ := fits
  simp only [List.map_cons, List.map_nil, Node.required?, Option.bind_some,
    e.device.givesBack _ _ f1, e.attr.givesBack _ _ f2, h.1.1.givesBack _ _ f3,
    Instant.givesBack h.2 _ _ f4, Option.bind_eq_bind, Option.pure_def]

theorem carried {e : DeviceEvent} (h : e.Each .writable) : e.toJson.Carried 0 := by
  have text := fun s => carried_text (by decide : 0 + 1 ≤ deepest) s
  refine carried_object (by decide) ?_
  simp only [List.forall_mem_cons]
  exact ⟨text _, e.attr.carried (by decide), h.1.1.carried h.1.2 (by decide), text _, by simp⟩

end DeviceEvent

namespace Target

theorem givesBack (t : Target) : GivesBack ofNode? t.toJson t := by
  cases t with
  | scene id name automatic =>
    refine givesBack_tagged (by decide) ["id", "name", "auto_run"] (by decide) rfl ?_
    simp only
    refine givesBack_fields ["id", "name", "auto_run"] (by decide) rfl fun depth settled fits => ?_
    simp only [List.forall_mem_cons] at fits
    simp only [List.map_cons, List.map_nil, Node.required?, Option.bind_some,
      id.givesBack _ _ fits.1, givesBack_text _ _ _ fits.2.1, givesBack_bool _ _ _ fits.2.2.1,
      Option.bind_eq_bind, Option.pure_def]
  | device id name =>
    refine givesBack_tagged (by decide) ["id", "name"] (by decide) rfl ?_
    simp only
    refine givesBack_fields ["id", "name"] (by decide) rfl fun depth settled fits => ?_
    simp only [List.forall_mem_cons] at fits
    simp only [List.map_cons, List.map_nil, Node.required?, Option.bind_some,
      id.givesBack _ _ fits.1, givesBack_text _ _ _ fits.2.1, Option.bind_eq_bind, Option.pure_def]
  | internal label =>
    refine givesBack_tagged (by decide) ["label"] (by decide) rfl ?_
    simp only
    refine givesBack_fields ["label"] (by decide) rfl fun depth settled fits => ?_
    simp only [List.map_cons, List.map_nil, Node.required?, Option.bind_some,
      givesBack_text _ _ _ (fits _ List.mem_cons_self), Option.map_some]

theorem carried (t : Target) : t.toJson.Carried 1 := by
  have text := fun s => carried_text (by decide : 1 + 1 ≤ deepest) s
  have bool := fun b => carried_bool (by decide : 1 + 1 ≤ deepest) b
  cases t <;> refine carried_object (by decide) ?_ <;> simp only [List.forall_mem_cons]
  · exact ⟨text _, text _, text _, bool _, by simp⟩
  · exact ⟨text _, text _, text _, by simp⟩
  · exact ⟨text _, text _, by simp⟩

end Target

namespace TaskRecord

def Each (p : Parts) (r : TaskRecord Uuid) : Prop :=
  p.instant r.createdAt ∧ ∀ t ∈ r.finishedAt, p.instant t

theorem givesBack {r : TaskRecord Uuid} (h : r.Each .writable) :
    GivesBack ofNode? (toJson r) r := by
  refine givesBack_fields fieldNames (by decide) rfl fun depth settled fits => ?_
  simp only [List.forall_mem_cons] at fits
  obtain ⟨f1, f2, f3, f4, f5, f6, f7, f8, -⟩ := fits
  simp only [List.map_cons, List.map_nil, Node.required?, Option.bind_some, Node.absentOr?,
    r.task.givesBack _ _ f1, Uuid.givesBack_option _ _ _ f2, r.target.givesBack _ _ f3,
    Outcome.givesBack_option _ _ _ f4, givesBack_textOption _ _ _ f5,
    Outcome.givesBack_option _ _ _ f6, Instant.givesBack h.1 _ _ f7,
    Instant.givesBack_option h.2 _ _ f8, Option.bind_eq_bind, Option.pure_def]

theorem carried (r : TaskRecord Uuid) : (toJson r).Carried 0 := by
  have text := fun s => carried_text (by decide : 0 + 1 ≤ deepest) s
  refine carried_object (by decide) ?_
  simp only [List.forall_mem_cons]
  exact ⟨text _, carried_option (by decide) fun _ _ => text _, r.target.carried,
    carried_option (by decide) fun _ _ => text _, carried_option (by decide) fun _ _ => text _,
    carried_option (by decide) fun _ _ => text _, text _,
    carried_option (by decide) fun _ _ => text _, by simp⟩

end TaskRecord

end HomeScenes
