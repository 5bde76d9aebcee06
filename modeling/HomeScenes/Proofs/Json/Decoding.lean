import HomeScenes.Proofs.Json.Reader
import HomeScenes.Proofs.Json.Tree

/-!
# Nodes of a text that was read

A node is sound when it can stand in a text: its numbers are proper, it is not too deep, and
it is only called settled when it is well-formed. The parts of a sound node are sound, one
level deeper or, for what is left beside a tag or a field, at the same level. The free value
of a sound node is proper and nests no deeper than the reader allows.
-/

namespace HomeScenes.Json

theorem mem_insertMember {key : String} {value : Json} {ms : List (String × Json)}
    {m : String × Json} (h : m ∈ insertMember key value ms) : m = (key, value) ∨ m ∈ ms := by
  induction ms with
  | nil => exact .inl (List.mem_singleton.1 h)
  | cons n ms ih =>
    rw [insertMember] at h
    split at h
    · exact List.mem_cons.1 h
    · split at h
      · exact (List.mem_cons.1 h).imp_right (List.mem_cons_of_mem n)
      · rcases List.mem_cons.1 h with rfl | tail
        · exact .inr List.mem_cons_self
        · exact (ih tail).imp_right (List.mem_cons_of_mem n)

theorem insertMember_sorted {key : String} {value : Json} {ms : List (String × Json)}
    (h : (ms.map Prod.fst).Pairwise (· < ·)) :
    ((insertMember key value ms).map Prod.fst).Pairwise (· < ·) := by
  induction ms with
  | nil => simp [insertMember]
  | cons n ms ih =>
    rw [List.map_cons, List.pairwise_cons] at h
    rw [insertMember]
    split
    · rename_i before
      rw [List.map_cons, List.pairwise_cons]
      refine ⟨?_, by rw [List.map_cons, List.pairwise_cons]; exact h⟩
      rw [List.map_cons, List.forall_mem_cons]
      exact ⟨before, fun k hk => String.lt_trans before (h.1 k hk)⟩
    · split
      · rename_i same
        subst same
        rw [List.map_cons, List.pairwise_cons]
        exact h
      · rename_i notBefore other
        have after : n.1 < key := Std.lt_of_le_of_ne (Std.not_lt.1 notBefore) (Ne.symm other)
        rw [List.map_cons, List.pairwise_cons]
        refine ⟨fun k hk => ?_, ih h.2⟩
        obtain ⟨m, hm, rfl⟩ := List.mem_map.1 hk
        rcases mem_insertMember hm with rfl | tail
        · exact after
        · exact h.1 _ (List.mem_map_of_mem tail)

namespace Raw

/-- A claim about all trees follows from the claim for each kind of tree, for containers from the
claim for what they hold. -/
@[elab_as_elim]
theorem inductionOn {P : Raw → Prop} (r : Raw) (null : P .null) (bool : ∀ b, P (.bool b))
    (number : ∀ n, P (.number n)) (text : ∀ s, P (.text s))
    (array : ∀ items, (∀ r ∈ items, P r) → P (.array items))
    (object : ∀ members, (∀ m ∈ members, P m.2) → P (.object members)) : P r :=
  go r
where
  go : ∀ r, P r
    | .null => null
    | .bool b => bool b
    | .number n => number n
    | .text s => text s
    | .array items => array items (goItems items)
    | .object members => object members (goMembers members)
  goItems : ∀ items : List Raw, ∀ r ∈ items, P r
    | r :: _, _, .head _ => go r
    | _ :: rs, q, .tail _ h => goItems rs q h
  goMembers : ∀ members : List (Option String × Raw), ∀ m ∈ members, P m.2
    | (_, r) :: _, _, .head _ => go r
    | _ :: ms, m, .tail _ h => goMembers ms m h

theorem mem_itemsToJson? {rs : List Raw} {vs : List Json} (h : itemsToJson? rs = some vs) :
    ∀ v ∈ vs, ∃ r ∈ rs, r.toJson? = some v := by
  induction rs generalizing vs with
  | nil => cases h; simp
  | cons r rs ih =>
    rw [itemsToJson?] at h
    split at h
    · rename_i v vs first rest
      cases h
      rw [List.forall_mem_cons]
      refine ⟨⟨r, List.mem_cons_self, first⟩, fun w hw => ?_⟩
      obtain ⟨q, hq, value⟩ := ih rest w hw
      exact ⟨q, List.mem_cons_of_mem r hq, value⟩
    · cases h

/-- Members are put in order one by one; each value is that of a member. -/
theorem membersToJson?_spec {ms : List (Option String × Raw)} {done members : List (String × Json)}
    (sorted : (done.map Prod.fst).Pairwise (· < ·)) (h : membersToJson? ms done = some members) :
    (members.map Prod.fst).Pairwise (· < ·) ∧
      ∀ m ∈ members, m ∈ done ∨ ∃ q ∈ ms, q.2.toJson? = some m.2 := by
  induction ms generalizing done with
  | nil =>
    cases h
    exact ⟨sorted, fun m hm => .inl hm⟩
  | cons q ms ih =>
    obtain ⟨key, r⟩ := q
    cases key with
    | none => cases h
    | some key =>
      rw [membersToJson?] at h
      split at h
      · rename_i v value
        obtain ⟨order, origin⟩ := ih (insertMember_sorted sorted) h
        refine ⟨order, fun m hm => ?_⟩
        rcases origin m hm with old | ⟨p, hp, tail⟩
        · rcases mem_insertMember old with rfl | old
          · exact .inr ⟨(some key, r), List.mem_cons_self, value⟩
          · exact .inl old
        · exact .inr ⟨p, List.mem_cons_of_mem _ hp, tail⟩
      · cases h

/-- By induction on the tree; in an object a value stands for the last member of its key. -/
theorem toJson?_spec {r : Raw} {v : Json} (h : r.toJson? = some v) (proper : r.Proper) :
    v.Proper ∧ ∀ around, around ≤ deepest → r.wellFormed around = true → v.Fits around := by
  induction r using Raw.inductionOn generalizing v with
  | null | bool =>
    cases h
    exact ⟨⟨by simp [numbers], trivial⟩, fun around room _ => fits_scalar room rfl⟩
  | text s =>
    cases s <;> cases h
    exact ⟨⟨by simp [numbers], trivial⟩, fun around room _ => fits_scalar room rfl⟩
  | number n =>
    match n, h with
    | some (.int i), h =>
      cases h
      exact ⟨⟨by simpa [numbers] using proper _ rfl, trivial⟩,
        fun around room _ => fits_scalar room rfl⟩
    | some (.float d), h =>
      cases h
      exact ⟨⟨by simpa [numbers] using proper _ rfl, trivial⟩,
        fun around room _ => fits_scalar room rfl⟩
  | array items ih =>
    rw [toJson?] at h
    obtain ⟨vs, values, rfl⟩ := Option.map_eq_some_iff.1 h
    rw [Proper, properItems_iff] at proper
    have each : ∀ v ∈ vs, ∃ r ∈ items, v.Proper ∧
        ∀ around, around ≤ deepest → r.wellFormed around = true → v.Fits around := by
      intro v hv
      obtain ⟨r, hr, value⟩ := mem_itemsToJson? values v hv
      exact ⟨r, hr, ih r hr value (proper r hr)⟩
    refine ⟨⟨fun n hn => ?_, ?_⟩, fun around room hw => ?_⟩
    · rw [numbers, numbersOfItems_eq, List.mem_flatMap] at hn
      obtain ⟨v, hv, hn⟩ := hn
      obtain ⟨-, -, hp, -⟩ := each v hv
      exact hp.numbers n hn
    · rw [Sorted, sortedItems_iff]
      intro v hv
      obtain ⟨-, -, hp, -⟩ := each v hv
      exact hp.sorted
    · rw [wellFormed, wellFormedItems_eq, Bool.and_eq_true, decide_eq_true_eq,
        List.all_eq_true] at hw
      refine .array hw.1 fun v hv => ?_
      obtain ⟨r, hr, -, fits⟩ := each v hv
      exact fits (around + 1) hw.1 (hw.2 r hr)
  | object members ih =>
    rw [toJson?] at h
    obtain ⟨ms, values, rfl⟩ := Option.map_eq_some_iff.1 h
    rw [Proper, properMembers_iff] at proper
    obtain ⟨sorted, origin⟩ := membersToJson?_spec List.Pairwise.nil values
    have each : ∀ m ∈ ms, ∃ q ∈ members, m.2.Proper ∧
        ∀ around, around ≤ deepest → q.2.wellFormed around = true → m.2.Fits around := by
      intro m hm
      rcases origin m hm with old | ⟨q, hq, value⟩
      · cases old
      · exact ⟨q, hq, ih q hq value (proper q hq)⟩
    refine ⟨⟨fun n hn => ?_, ?_⟩, fun around room hw => ?_⟩
    · rw [numbers, numbersOfMembers_eq, List.mem_flatMap] at hn
      obtain ⟨m, hm, hn⟩ := hn
      obtain ⟨-, -, hp, -⟩ := each m hm
      exact hp.numbers n hn
    · rw [Sorted, sortedMembers_iff]
      refine ⟨sorted, fun m hm => ?_⟩
      obtain ⟨-, -, hp, -⟩ := each m hm
      exact hp.sorted
    · rw [wellFormed, wellFormedMembers_eq, Bool.and_eq_true, decide_eq_true_eq,
        List.all_eq_true] at hw
      refine .object hw.1 fun m hm => ?_
      obtain ⟨q, hq, -, fits⟩ := each m hm
      exact fits (around + 1) hw.1 (Bool.and_eq_true_iff.1 (hw.2 q hq)).2

end Raw

namespace Node

/-- A node as it can stand in a text that was read. -/
structure Sound (n : Node) : Prop where
  proper : n.raw.Proper
  room : n.depth ≤ deepest
  settled : n.settled = true → n.raw.wellFormed n.depth = true

/-- A sound node one level below another. -/
structure Below (n m : Node) : Prop where
  sound : m.Sound
  depth : m.depth = n.depth + 1
  settled : m.settled = n.settled

variable {n : Node}

theorem sound_ofText? {s : String} (h : ofText? s = some n) : n.Sound ∧ n.depth = 0 := by
  obtain ⟨r, read, rfl⟩ := Option.map_eq_some_iff.1 h
  exact ⟨⟨Raw.ofChars?_proper read, Nat.zero_le _, nofun⟩, rfl⟩

/-- Settling a node leaves it as it is, and tells that it is well-formed. -/
theorem settle?_spec {m : Node} (hn : n.Sound) (h : n.settle? = some m) :
    m.Sound ∧ m.depth = n.depth ∧ m.raw = n.raw ∧ m.raw.wellFormed m.depth = true := by
  rw [settle?] at h
  split at h
  · rename_i settled
    cases h
    exact ⟨hn, rfl, rfl, hn.settled settled⟩
  · split at h
    · rename_i wellFormed
      cases h
      exact ⟨⟨hn.proper, hn.room, fun _ => wellFormed⟩, rfl, rfl, wellFormed⟩
    · cases h

theorem inside_below {r : Raw} (room : n.depth < deepest) (proper : r.Proper)
    (wellFormed : n.settled = true → r.wellFormed (n.depth + 1) = true) : n.Below (n.inside r) :=
  ⟨⟨proper, room, wellFormed⟩, rfl, rfl⟩

theorem items?_below {items : List Node} (hn : n.Sound) (h : n.items? = some items) :
    ∀ m ∈ items, n.Below m := by
  unfold items? at h
  split at h
  · rename_i rs array
    split at h
    · rename_i room
      cases h
      have proper := hn.proper
      have whole := hn.settled
      rw [array, Raw.Proper, Raw.properItems_iff] at proper
      rw [array, Raw.wellFormed, wellFormedItems_eq, Bool.and_eq_true, List.all_eq_true] at whole
      rw [List.forall_mem_map]
      exact fun r hr => inside_below room (proper r hr) fun settled => (whole settled).2 r hr
    · cases h
  · cases h

theorem mem_mapM {α β : Type} {f : α → Option β} {as : List α} {bs : List β}
    (h : as.mapM f = some bs) : ∀ b ∈ bs, ∃ a ∈ as, f a = some b := by
  induction as generalizing bs with
  | nil => cases h; simp
  | cons a as ih =>
    rw [List.mapM_cons] at h
    obtain ⟨c, first, h⟩ := Option.bind_eq_some_iff.1 h
    obtain ⟨cs, rest, h⟩ := Option.bind_eq_some_iff.1 h
    cases h
    rw [List.forall_mem_cons]
    refine ⟨⟨a, List.mem_cons_self, first⟩, fun b hb => ?_⟩
    obtain ⟨a', ha, value⟩ := ih rest b hb
    exact ⟨a', List.mem_cons_of_mem a ha, value⟩

theorem members?_below {members : List (String × Node)} (hn : n.Sound)
    (h : n.members? = some members) :
    n.depth < deepest ∧ ∀ m ∈ members, n.Below m.2 := by
  unfold members? at h
  split at h
  · rename_i qs object
    split at h
    · rename_i room
      have proper := hn.proper
      have whole := hn.settled
      rw [object, Raw.Proper, Raw.properMembers_iff] at proper
      rw [object, Raw.wellFormed, wellFormedMembers_eq, Bool.and_eq_true, List.all_eq_true] at whole
      refine ⟨room, fun m hm => ?_⟩
      obtain ⟨⟨key, r⟩, hq, keyed⟩ := mem_mapM h m hm
      cases key with
      | none => cases keyed
      | some key =>
        cases keyed
        exact inside_below room (proper _ hq) fun settled =>
          (Bool.and_eq_true_iff.1 ((whole settled).2 _ hq)).2
    · cases h
  · cases h

theorem single?_mem {name : String} {ms : List (String × Node)} {m : Node}
    (h : single? name ms = some (some m)) : ∃ q ∈ ms, q.2 = m := by
  unfold single? at h
  split at h
  · cases h
  · rename_i alone
    cases h
    have here : m ∈ named name ms := alone ▸ List.mem_cons_self
    obtain ⟨q, hq, rfl⟩ := List.mem_map.1 here
    exact ⟨q, List.mem_of_mem_filter hq, rfl⟩
  · cases h

/-- The values found under some names are among the values of the members. -/
theorem mapM_single?_below {names : List String} {members : List (String × Node)}
    {fields : List (Option Node)} (below : ∀ m ∈ members, n.Below m.2)
    (h : (names.mapM fun name => single? name members) = some fields) :
    ∀ f ∈ fields, ∀ m ∈ f, n.Below m := by
  rintro f hf m rfl
  obtain ⟨name, -, found⟩ := mem_mapM h _ hf
  obtain ⟨q, hq, rfl⟩ := single?_mem found
  exact below q hq

theorem fields?_below {names : List String} {fields : List (Option Node)} (hn : n.Sound)
    (h : n.fields? names = some fields) : ∀ f ∈ fields, ∀ m ∈ f, n.Below m := by
  unfold fields? at h
  split at h
  · split at h
    · rename_i items found
      split at h
      · cases h
        rw [List.forall_mem_map]
        intro m hm m' same
        obtain rfl : m = m' := Option.some.inj same
        exact items?_below hn found m hm
      · cases h
    · cases h
  · obtain ⟨members, found, h⟩ := Option.bind_eq_some_iff.1 h
    exact mapM_single?_below (members?_below hn found).2 h

/-- The fields taken out of a sound node are sound, and so is the rest, which stays at its depth. -/
theorem splitFields?_sound {names : List String} {fields : List (Option Node)} {rest : Node}
    (hn : n.Sound) (h : n.splitFields? names = some (fields, rest)) :
    (∀ f ∈ fields, ∀ m ∈ f, n.Below m) ∧ rest.Sound ∧ rest.depth = n.depth := by
  obtain ⟨members, found, h⟩ := Option.bind_eq_some_iff.1 h
  obtain ⟨fields', taken, h⟩ := Option.bind_eq_some_iff.1 h
  obtain ⟨rest', settled, h⟩ := Option.bind_eq_some_iff.1 h
  cases h
  obtain ⟨room, below⟩ := members?_below hn found
  have others : Sound ⟨.object ((members.filter fun m => !names.contains m.1).map
      fun m => (some m.1, m.2.raw)), n.depth, n.settled⟩ := by
    refine ⟨?_, hn.room, fun settled => ?_⟩
    · rw [Raw.Proper, Raw.properMembers_iff, List.forall_mem_map]
      exact fun m hm => (below m (List.mem_of_mem_filter hm)).sound.proper
    · rw [Raw.wellFormed, wellFormedMembers_eq, Bool.and_eq_true, List.all_eq_true,
        List.forall_mem_map]
      refine ⟨decide_eq_true room, fun m hm => ?_⟩
      have under := below m (List.mem_of_mem_filter hm)
      have whole := under.sound.settled (under.settled.trans settled)
      rw [under.depth] at whole
      simpa using whole
  obtain ⟨sound, depth, -, -⟩ := settle?_spec others settled
  exact ⟨mapM_single?_below below taken, sound, depth⟩

theorem tagged?_sound {tags : List String} {tag : String} {rest : Node} (hn : n.Sound)
    (h : n.tagged? tags = some (tag, rest)) : rest.Sound ∧ rest.depth = n.depth := by
  unfold tagged? at h
  dsimp only at h
  split at h
  · rename_i t items array
    split at h
    · cases h
    · rename_i room
      obtain ⟨tag', -, h⟩ := Option.bind_eq_some_iff.1 h
      obtain ⟨rest', settled, h⟩ := Option.bind_eq_some_iff.1 h
      cases h
      have tail : Sound ⟨.array items, n.depth, n.settled⟩ := by
        have proper := hn.proper
        have whole := hn.settled
        rw [array, Raw.Proper, Raw.properItems_iff, List.forall_mem_cons] at proper
        rw [array, Raw.wellFormed, wellFormedItems_eq, Bool.and_eq_true, List.all_eq_true,
          List.forall_mem_cons] at whole
        refine ⟨?_, hn.room, fun settled => ?_⟩
        · rw [Raw.Proper, Raw.properItems_iff]
          exact proper.2
        · rw [Raw.wellFormed, wellFormedItems_eq, Bool.and_eq_true, List.all_eq_true]
          exact ⟨(whole settled).1, (whole settled).2.2⟩
      obtain ⟨sound, depth, -, -⟩ := settle?_spec tail settled
      exact ⟨sound, depth⟩
  · obtain ⟨⟨fields, rest'⟩, parts, h⟩ := Option.bind_eq_some_iff.1 h
    dsimp only at h
    split at h
    · obtain ⟨tag', -, h⟩ := Option.bind_eq_some_iff.1 h
      cases h
      exact (splitFields?_sound hn parts).2
    · cases h

end Node

end HomeScenes.Json
