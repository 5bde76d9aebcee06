import Mathlib.Data.List.Nodup
import HomeScenes.Proofs.Json.Value

/-!
# Trees of values taken apart

What the parts of a node are when the node stands for a value: its items, its members and
fields, its tag and what is left beside them. The members of a record have distinct keys,
so that a field is found by its name and nowhere else, and a tag or a field that is taken
out leaves the other members as they were. All of it holds where the value, with the
containers around it, nests no deeper than the reader allows.
-/

namespace HomeScenes.Json

def node (v : Json) (depth : Nat) (settled : Bool) : Node := ⟨v.raw, depth, settled⟩

@[simp] theorem node_depth (v : Json) (depth : Nat) (settled : Bool) :
    (v.node depth settled).depth = depth := rfl

@[simp] theorem node_settled (v : Json) (depth : Nat) (settled : Bool) :
    (v.node depth settled).settled = settled := rfl

theorem node_array (items : List Json) (depth : Nat) (settled : Bool) :
    (array items).node depth settled = ⟨.array (items.map raw), depth, settled⟩ := by
  rw [node, raw, rawItems_eq]

theorem node_object (members : List (String × Json)) (depth : Nat) (settled : Bool) :
    (object members).node depth settled =
      ⟨.object (members.map fun m => (some m.1, m.2.raw)), depth, settled⟩ := by
  rw [node, raw, rawMembers_eq]

/-- A value and the containers around it are as many as the reader allows, or fewer. -/
def Fits (v : Json) (around : Nat) : Prop :=
  v.depth + around ≤ deepest

theorem fits_scalar {v : Json} {around : Nat} (h : around ≤ deepest) (scalar : v.depth = 0) :
    v.Fits around := by
  rwa [Fits, scalar, Nat.zero_add]

theorem Fits.item {items : List Json} {around : Nat} (h : (array items).Fits around) :
    around < deepest ∧ ∀ v ∈ items, v.Fits (around + 1) := by
  have inner : ∀ v ∈ items, v.depth ≤ depthOfItems items := depthOfItems_le.1 le_rfl
  rw [Fits, depth] at h
  refine ⟨by omega, fun v hv => ?_⟩
  have := inner v hv
  rw [Fits]
  omega

theorem Fits.member {members : List (String × Json)} {around : Nat}
    (h : (object members).Fits around) :
    around < deepest ∧ ∀ m ∈ members, m.2.Fits (around + 1) := by
  have inner : ∀ m ∈ members, m.2.depth ≤ depthOfMembers members := depthOfMembers_le.1 le_rfl
  rw [Fits, depth] at h
  refine ⟨by omega, fun m hm => ?_⟩
  have := inner m hm
  rw [Fits]
  omega

theorem Fits.object {members : List (String × Json)} {around : Nat} (room : around < deepest)
    (h : ∀ m ∈ members, m.2.Fits (around + 1)) : (Json.object members).Fits around := by
  have : depthOfMembers members ≤ deepest - (around + 1) := depthOfMembers_le.2 fun m hm => by
    have := h m hm
    rw [Fits] at this
    omega
  rw [Fits, depth]
  omega

theorem Fits.array {items : List Json} {around : Nat} (room : around < deepest)
    (h : ∀ v ∈ items, v.Fits (around + 1)) : (Json.array items).Fits around := by
  have : depthOfItems items ≤ deepest - (around + 1) := depthOfItems_le.2 fun v hv => by
    have := h v hv
    rw [Fits] at this
    omega
  rw [Fits, depth]
  omega

theorem Fits.sublist {ms ms' : List (String × Json)} {around : Nat}
    (h : (Json.object ms').Fits around) (sub : ∀ m ∈ ms, m ∈ ms') :
    (Json.object ms).Fits around :=
  .object h.member.1 fun m hm => h.member.2 m (sub m hm)

theorem wellFormedItems_eq (around : Nat) (rs : List Raw) :
    Raw.wellFormedItems around rs = rs.all (Raw.wellFormed around) := by
  induction rs with
  | nil => rfl
  | cons r rs ih => rw [Raw.wellFormedItems, ih, List.all_cons]

theorem wellFormedMembers_eq (around : Nat) (ms : List (Option String × Raw)) :
    Raw.wellFormedMembers around ms = ms.all fun m => m.1.isSome && m.2.wellFormed around := by
  induction ms with
  | nil => rfl
  | cons m ms ih => rw [Raw.wellFormedMembers, ih, List.all_cons]

/-- By induction on the value: every text and number of its tree has a value, so that only the
depth counts. -/
theorem Fits.wellFormed {v : Json} {around : Nat} (h : v.Fits around) :
    v.raw.wellFormed around = true := by
  induction v using Json.inductionOn generalizing around with
  | null | bool | int | float | text => rfl
  | array items ih =>
    rw [raw, rawItems_eq, Raw.wellFormed, wellFormedItems_eq]
    simpa [h.item.1] using fun v hv => ih v hv (h.item.2 v hv)
  | object members ih =>
    rw [raw, rawMembers_eq, Raw.wellFormed, wellFormedMembers_eq]
    simpa [h.member.1] using fun k v hm => ih (k, v) hm (h.member.2 (k, v) hm)

theorem settle?_node {v : Json} {around : Nat} (h : v.Fits around) (settled : Bool) :
    (v.node around settled).settle? = some (v.node around true) := by
  cases settled with
  | true => rfl
  | false => simp [Node.settle?, node, h.wellFormed]

/-- A member whose key comes after all others goes to the end. -/
theorem insertMember_of_lt {key : String} {value : Json} {ms : List (String × Json)}
    (h : ∀ m ∈ ms, m.1 < key) : insertMember key value ms = ms ++ [(key, value)] := by
  induction ms with
  | nil => rfl
  | cons m ms ih =>
    have before : m.1 < key := h m List.mem_cons_self
    have other : ¬ key = m.1 := fun same => String.lt_irrefl key (same ▸ before)
    have tail := ih fun m' hm => h m' (List.mem_cons_of_mem _ hm)
    rw [insertMember, if_neg (String.lt_asymm before), if_neg other, tail, List.cons_append]

theorem itemsToJson?_map {items : List Json} (h : ∀ v ∈ items, v.raw.toJson? = some v) :
    Raw.itemsToJson? (items.map raw) = some items := by
  induction items with
  | nil => rfl
  | cons v vs ih =>
    have tail := ih fun w hw => h w (List.mem_cons_of_mem _ hw)
    rw [List.map_cons, Raw.itemsToJson?, h v List.mem_cons_self, tail]

theorem membersToJson?_map {members done : List (String × Json)}
    (h : ∀ m ∈ members, m.2.raw.toJson? = some m.2)
    (sorted : ((done ++ members).map Prod.fst).Pairwise (· < ·)) :
    Raw.membersToJson? (members.map fun m => (some m.1, m.2.raw)) done =
      some (done ++ members) := by
  induction members generalizing done with
  | nil => rw [List.map_nil, Raw.membersToJson?, List.append_nil]
  | cons m ms ih =>
    have last : insertMember m.1 m.2 done = done ++ [m] := insertMember_of_lt fun m' hm' => by
      rw [List.map_append, List.pairwise_append] at sorted
      exact sorted.2.2 m'.1 (List.mem_map_of_mem hm') m.1 List.mem_cons_self
    have tail : Raw.membersToJson? (ms.map fun m => (some m.1, m.2.raw)) (done ++ [m]) =
        some (done ++ [m] ++ ms) :=
      ih (fun m' hm => h m' (List.mem_cons_of_mem _ hm))
        (by rwa [List.append_assoc, List.singleton_append])
    rw [List.map_cons, Raw.membersToJson?, h m List.mem_cons_self]
    simp only [last, tail, List.append_assoc, List.singleton_append]

theorem toJson?_raw {v : Json} (sorted : v.Sorted) : v.raw.toJson? = some v := by
  induction v using Json.inductionOn with
  | null | bool | int | float | text => rfl
  | array items ih =>
    rw [Sorted, sortedItems_iff] at sorted
    rw [raw, rawItems_eq, Raw.toJson?, itemsToJson?_map fun v hv => ih v hv (sorted v hv)]
    rfl
  | object members ih =>
    rw [Sorted, sortedMembers_iff] at sorted
    rw [raw, rawMembers_eq, Raw.toJson?,
      membersToJson?_map (fun m hm => ih m hm (sorted.2 m hm)) (by simpa using sorted.1)]
    rfl

def memberNodes (members : List (String × Json)) (depth : Nat) (settled : Bool) :
    List (String × Node) :=
  members.map fun m => (m.1, m.2.node (depth + 1) settled)

theorem mapM_eq_map {α β : Type} {f : α → Option β} {g : α → β} {l : List α}
    (h : ∀ a ∈ l, f a = some (g a)) : l.mapM f = some (l.map g) := by
  induction l with
  | nil => rfl
  | cons a l ih =>
    have tail := ih fun b hb => h b (List.mem_cons_of_mem _ hb)
    simp [List.mapM_cons, h a List.mem_cons_self, tail]

theorem members?_node (members : List (String × Json)) {depth : Nat} (room : depth < deepest)
    (settled : Bool) : ((object members).node depth settled).members? =
      some (memberNodes members depth settled) := by
  rw [node_object, Node.members?]
  simp only [if_pos room]
  rw [List.mapM_map]
  exact mapM_eq_map fun _ _ => rfl

theorem items?_node (items : List Json) {depth : Nat} (room : depth < deepest) (settled : Bool) :
    ((array items).node depth settled).items? =
      some (items.map fun v => v.node (depth + 1) settled) := by
  rw [node_array, Node.items?]
  simp only [if_pos room, List.map_map]
  rfl

theorem named_of_not_mem {name : String} {ms : List (String × Node)}
    (h : name ∉ ms.map Prod.fst) : Node.named name ms = [] := by
  have none_left : ms.filter (fun m => decide (m.1 = name)) = [] :=
    List.filter_eq_nil_iff.2 fun m hm same =>
      h (List.mem_map.2 ⟨m, hm, of_decide_eq_true same⟩)
  rw [Node.named, none_left, List.map_nil]

/-- Among distinct keys a name stands for its own value only. -/
theorem single?_of_mem {name : String} {n : Node} {ms : List (String × Node)}
    (nodup : (ms.map Prod.fst).Nodup) (h : (name, n) ∈ ms) :
    Node.single? name ms = some (some n) := by
  suffices alone : Node.named name ms = [n] by rw [Node.single?, alone]
  induction ms with
  | nil => cases h
  | cons m ms ih =>
    rw [List.map_cons, List.nodup_cons] at nodup
    rcases List.mem_cons.1 h with rfl | tail
    · have rest := named_of_not_mem nodup.1
      rw [Node.named] at rest ⊢
      rw [List.filter_cons_of_pos (by simp), List.map_cons, rest]
    · have other : m.1 ≠ name := fun same =>
        nodup.1 (same ▸ List.mem_map.2 ⟨(name, n), tail, rfl⟩)
      have rest := ih nodup.2 tail
      rw [Node.named] at rest ⊢
      rw [List.filter_cons_of_neg (by simpa using other), rest]

theorem single?_memberNodes {members : List (String × Json)} (nodup : (members.map Prod.fst).Nodup)
    {name : String} {v : Json} (h : (name, v) ∈ members) (depth : Nat) (settled : Bool) :
    Node.single? name (memberNodes members depth settled) =
      some (some (v.node (depth + 1) settled)) := by
  refine single?_of_mem ?_ (List.mem_map.2 ⟨(name, v), h, rfl⟩)
  rwa [memberNodes, List.map_map]

/-- The fields of a record that stands as the object of all its fields, in their order. -/
theorem fields?_node {members : List (String × Json)} (nodup : (members.map Prod.fst).Nodup)
    {depth : Nat} (room : depth < deepest) (settled : Bool) :
    ((object members).node depth settled).fields? (members.map Prod.fst) =
      some (members.map fun m => some (m.2.node (depth + 1) settled)) := by
  have found : (members.map Prod.fst).mapM (fun name =>
      Node.single? name (memberNodes members depth settled)) =
        some (members.map fun m => some (m.2.node (depth + 1) settled)) := by
    rw [List.mapM_map]
    exact mapM_eq_map fun m hm => single?_memberNodes nodup hm depth settled
  have all := members?_node members room settled
  rw [Node.fields?]
  split
  · rename_i items array
    rw [node_object] at array
    cases array
  · rw [all, Option.bind_some]
    exact found

/-- Fields that are taken out of an object, and the other members as a settled object. -/
theorem splitFields?_node {members : List (String × Json)}
    (nodup : (members.map Prod.fst).Nodup) {depth : Nat} (fits : (object members).Fits depth)
    (settled : Bool) {names : List String} {values : List Json}
    (found : List.Forall₂ (fun name v => (name, v) ∈ members) names values) :
    ((object members).node depth settled).splitFields? names =
      some (values.map fun v => some (v.node (depth + 1) settled),
        (object (members.filter fun m => !names.contains m.1)).node depth true) := by
  have fields : names.mapM (fun name => Node.single? name (memberNodes members depth settled)) =
      some (values.map fun v => some (v.node (depth + 1) settled)) := by
    induction found with
    | nil => rfl
    | cons here _ ih =>
      simp [List.mapM_cons, single?_memberNodes nodup here, ih]
  have others : ((memberNodes members depth settled).filter fun m => !names.contains m.1).map
      (fun m => (some m.1, m.2.raw)) =
        (members.filter fun m => !names.contains m.1).map fun m => (some m.1, m.2.raw) := by
    rw [memberNodes, List.filter_map, List.map_map]
    rfl
  have kept : (object (members.filter fun m => !names.contains m.1)).Fits depth :=
    fits.sublist fun m hm => List.mem_of_mem_filter hm
  have rest := settle?_node kept settled
  rw [node_object _ depth settled] at rest
  simp only [Node.splitFields?, members?_node members fits.member.1, fields, others, rest,
    node_depth, node_settled, Option.bind_eq_bind, Option.bind_some, Option.pure_def]

/-- Fields that stand before or after the members of a part of their record. -/
theorem splitFields?_append (own part : List (String × Json))
    (nodup : ((own ++ part).map Prod.fst).Nodup) {members : List (String × Json)}
    (order : members = own ++ part ∨ members = part ++ own) {depth : Nat}
    (fits : (object members).Fits depth) (settled : Bool) :
    ((object members).node depth settled).splitFields? (own.map Prod.fst) =
      some (own.map fun m => some (m.2.node (depth + 1) settled),
        (object part).node depth true) := by
  rw [List.map_append, List.nodup_append] at nodup
  have distinct : (members.map Prod.fst).Nodup := by
    rcases order with rfl | rfl <;> rw [List.map_append, List.nodup_append]
    · exact nodup
    · exact ⟨nodup.2.1, nodup.1, fun x hx y hy same => nodup.2.2 y hy x hx same.symm⟩
  have here : List.Forall₂ (fun name v => (name, v) ∈ members) (own.map Prod.fst)
      (own.map Prod.snd) := by
    rw [List.forall₂_map_left_iff, List.forall₂_map_right_iff, List.forall₂_same]
    rcases order with rfl | rfl
    · exact fun m hm => List.mem_append_left _ hm
    · exact fun m hm => List.mem_append_right _ hm
  have taken : own.filter (fun m => !(own.map Prod.fst).contains m.1) = [] := by
    rw [List.filter_eq_nil_iff]
    intro m hm
    simpa using ⟨m.2, hm⟩
  have kept : part.filter (fun m => !(own.map Prod.fst).contains m.1) = part := by
    rw [List.filter_eq_self]
    intro m hm
    simpa using fun v hv => nodup.2.2 m.1 (List.mem_map.2 ⟨(m.1, v), hv, rfl⟩) m.1
      (List.mem_map_of_mem hm) rfl
  have others : members.filter (fun m => !(own.map Prod.fst).contains m.1) = part := by
    rcases order with rfl | rfl <;> simp only [List.filter_append, taken, kept, List.nil_append,
      List.append_nil]
  rw [splitFields?_node distinct fits settled here, others, List.map_map]
  rfl

/-- The tag of a tagged record that stands in front of its fields. -/
theorem tagged?_node {tag : String} {tags : List String} (known : tag ∈ tags)
    {members : List (String × Json)} (nodup : ("type" :: members.map Prod.fst).Nodup) {depth : Nat}
    (fits : (object (("type", .text tag) :: members)).Fits depth) (settled : Bool) :
    ((object (("type", .text tag) :: members)).node depth settled).tagged? tags =
      some (tag, (object members).node depth true) := by
  have parts := splitFields?_append [("type", .text tag)] members nodup (.inl rfl) fits settled
  simp only [List.map_cons, List.map_nil, List.singleton_append] at parts
  rw [Node.tagged?]
  split
  · rename_i items array
    rw [node_object] at array
    cases array
  · rw [parts]
    simp [node, raw, known]

/-- A reader gives a thing back from a value, wherever the value may stand. -/
def GivesBack {α : Type} (read : Node → Option α) (v : Json) (a : α) : Prop :=
  ∀ depth settled, v.Fits depth → read (v.node depth settled) = some a

theorem givesBack_text (s : String) : GivesBack Node.text? (.text s) s :=
  fun _ _ _ => rfl

theorem givesBack_bool (b : Bool) : GivesBack Node.bool? (.bool b) b :=
  fun _ _ _ => rfl

theorem givesBack_choice (s : String) : GivesBack Node.choice? (.text s) s :=
  fun _ _ _ => rfl

theorem GivesBack.map {α β : Type} {read : Node → Option α} {v : Json} {a : α}
    (h : GivesBack read v a) (f : α → β) : GivesBack (fun n => (read n).map f) v (f a) :=
  fun depth settled fits => by simp only [h depth settled fits, Option.map_some]

theorem GivesBack.bind {α β : Type} {read : Node → Option α} {v : Json} {a : α} {b : β}
    (h : GivesBack read v a) {f : α → Option β} (hf : f a = some b) :
    GivesBack (fun n => (read n).bind f) v b :=
  fun depth settled fits => by simp only [h depth settled fits, Option.bind_some, hf]

theorem givesBack_items {α : Type} {read : Node → Option α} {form : α → Json} {as : List α}
    (h : ∀ a ∈ as, GivesBack read (form a) a) :
    GivesBack (fun n => n.items?.bind fun items => items.mapM read) (.array (as.map form)) as := by
  intro depth settled fits
  obtain ⟨room, inner⟩ := fits.item
  have each : ((as.map form).map fun v => v.node (depth + 1) settled).mapM read =
      some (as.map id) := by
    rw [List.map_map, List.mapM_map]
    exact mapM_eq_map fun a ha =>
      h a ha (depth + 1) settled (inner (form a) (List.mem_map_of_mem ha))
  simp only [items?_node _ room, Option.bind_some, each, List.map_id]

theorem givesBack_none {α : Type} (read : Node → Option α) :
    GivesBack (Node.optional? read) .null none :=
  fun _ _ _ => rfl

theorem GivesBack.some {α : Type} {read : Node → Option α} {v : Json} {a : α}
    (h : GivesBack read v a) (filled : v ≠ .null) :
    GivesBack (Node.optional? read) v (some a) := by
  intro depth settled fits
  have there : (v.node depth settled).isNull = false := by
    cases v with
    | null => exact absurd rfl filled
    | _ => rfl
  rw [Node.optional?, if_neg (by rw [there]; decide), h depth settled fits, Option.map_some]

/-- A record that stands as the object of its fields is given back by what is made of the fields. -/
theorem givesBack_fields {α : Type} (names : List String) (nodup : names.Nodup)
    {members : List (String × Json)} (keys : members.map Prod.fst = names)
    {make : List (Option Node) → Option α} {a : α}
    (h : ∀ depth settled, (∀ m ∈ members, m.2.Fits depth) →
      make (members.map fun m => some (m.2.node depth settled)) = some a) :
    GivesBack (fun n => (n.fields? names).bind make) (.object members) a := by
  intro depth settled fits
  subst keys
  simp only [fields?_node nodup fits.member.1, Option.bind_some]
  exact h (depth + 1) settled fits.member.2

/-- A tagged record is given back by what is made of its tag and the members beside it. -/
theorem givesBack_tagged {α : Type} {tags : List String} {tag : String} (known : tag ∈ tags)
    (names : List String) (nodup : ("type" :: names).Nodup) {members : List (String × Json)}
    (keys : members.map Prod.fst = names) {make : String × Node → Option α} {a : α}
    (h : GivesBack (fun n => make (tag, n)) (.object members) a) :
    GivesBack (fun n => (n.tagged? tags).bind make)
      (.object (("type", .text tag) :: members)) a := by
  intro depth settled fits
  subst keys
  simp only [tagged?_node known nodup fits settled, Option.bind_some]
  exact h depth true (fits.sublist fun m hm => List.mem_cons_of_mem _ hm)

/-- A record with a part beside its own fields is given back by what is made of the fields and the
members of the part. -/
theorem givesBack_split {α : Type} (own part : List (String × Json)) (names : List String)
    (nodup : names.Nodup) (keys : (own ++ part).map Prod.fst = names)
    {members : List (String × Json)} (order : members = own ++ part ∨ members = part ++ own)
    {make : List (Option Node) × Node → Option α} {a : α}
    (h : ∀ depth settled, (∀ m ∈ own, m.2.Fits (depth + 1)) → (object part).Fits depth →
      make (own.map fun m => some (m.2.node (depth + 1) settled), (object part).node depth true) =
        some a) :
    GivesBack (fun n => (n.splitFields? (own.map Prod.fst)).bind make) (.object members) a := by
  intro depth settled fits
  subst keys
  simp only [splitFields?_append own part nodup order fits settled, Option.bind_some]
  refine h depth settled (fun m hm => fits.member.2 m ?_) (fits.sublist fun m hm => ?_)
  · rcases order with rfl | rfl <;> simp [hm]
  · rcases order with rfl | rfl <;> simp [hm]

end HomeScenes.Json
