import Mathlib.Data.List.Nodup
import Mathlib.Data.List.Pairwise
import KeyLint.Json.Record
import KeyLint.Proofs.Json.RoundTrip

/-!
# Records that are written

What a value makes of a record: which fields it sets, however it is written, and what about it is
refused. An object may give the fields in any order, an array gives the first ones.
-/

namespace KeyLint.Json

variable {α : Type}

/-! ## Fields in the order of their declaration -/

theorem Field.set?_of {β : Type} (name : String) (read? : Json → Option β) (store : α → β → α)
    (v : Json) (r : α) : (Field.of name read? store).set? v r = (read? v).map (store r) :=
  rfl

theorem find?_of_nodup {done todo : List (Field α)} {field : Field α}
    (h : ((done ++ field :: todo).map Field.name).Nodup) :
    (done ++ field :: todo).find? (fun f => f.name = field.name) = some field := by
  have hdone : done.find? (fun f => f.name = field.name) = none := by
    rw [List.find?_eq_none]
    intro f hf heq
    rw [List.map_append, List.map_cons, List.nodup_append] at h
    exact h.2.2 f.name (List.mem_map_of_mem hf) field.name List.mem_cons_self (of_decide_eq_true heq)
  rw [List.find?_append, hdone]
  simp

theorem setItems_of {β : Type} {name : String} {read? : Json → Option β} {store : α → β → α}
    {v : Json} {x : β} (hread : read? v = some x) (fields : List (Field α)) (vs : List Json) (r : α) :
    setItems (.of name read? store :: fields) (v :: vs) r = setItems fields vs (store r x) := by
  simp only [setItems, Field.set?_of, hread, Option.map_some, Option.bind_some]

theorem texts?_ofTexts (ts : List Text) : texts? (ofTexts ts) = some ts := by
  rw [ofTexts, texts?]
  induction ts with
  | nil => rfl
  | cons t ts ih => simp [text?, ih]

theorem nullableText?_ofText? (t : Option Text) : nullableText? (ofText? t) = some t := by
  cases t <;> rfl

/-! ## Members in any order -/

/-- Two fields that can be set one after the other in either order. -/
def Field.Commutes (a b : Field α) : Prop :=
  ∀ v w r, (a.set? v r).bind (b.set? w) = (b.set? w r).bind (a.set? v)

theorem Field.commutes_of {β γ : Type} {name name' : String} {read? : Json → Option β}
    {read'? : Json → Option γ} {store : α → β → α} {store' : α → γ → α}
    (h : ∀ r x y, store' (store r x) y = store (store' r y) x) :
    (Field.of name read? store).Commutes (.of name' read'? store') := by
  intro v w r
  simp only [Field.of]
  cases read? v with
  | none => cases read'? w <;> rfl
  | some x =>
      cases read'? w with
      | none => rfl
      | some y => exact congrArg some (h r x y)

/-- Sets one field by a member, unless setting an earlier one has failed. -/
def setMember (fields : List (Field α)) (r? : Option α) (member : Text × Json) : Option α :=
  r?.bind fun r =>
    (fields.find? fun field => field.name = member.1).bind fun field => field.set? member.2 r

theorem foldl_setMember_none (fields : List (Field α)) (members : List (Text × Json)) :
    members.foldl (setMember fields) none = none := by
  induction members with
  | nil => rfl
  | cons member members ih => exact ih

theorem setMembers_eq_foldl (fields : List (Field α)) {seen : List Text}
    {members : List (Text × Json)} (hnodup : (members.map Prod.fst).Nodup)
    (hseen : ∀ member ∈ members, member.1 ∉ seen) (r : α) :
    setMembers fields seen members r = members.foldl (setMember fields) (some r) := by
  induction members generalizing seen r with
  | nil => rfl
  | cons member members ih =>
      obtain ⟨name, v⟩ := member
      obtain ⟨hnew, hnodup⟩ := List.nodup_cons.mp hnodup
      have hrest : ∀ r, setMembers fields (name :: seen) members r
          = members.foldl (setMember fields) (some r) := by
        refine ih hnodup fun member hmember => ?_
        rw [List.mem_cons, not_or]
        refine ⟨?_, hseen member (List.mem_cons_of_mem _ hmember)⟩
        intro heq
        have hmem : member.1 ∈ members.map Prod.fst := List.mem_map_of_mem hmember
        exact hnew (heq ▸ hmem)
      rw [setMembers, if_neg (by simpa using hseen _ List.mem_cons_self), List.foldl_cons, setMember,
        Option.bind_some]
      cases fields.find? fun field => field.name = name with
      | none => exact (foldl_setMember_none fields members).symm
      | some field =>
          dsimp only [Option.bind_some]
          cases field.set? v r with
          | none => exact (foldl_setMember_none fields members).symm
          | some r' => exact hrest r'

instance : Std.Symm (Field.Commutes : Field α → Field α → Prop) :=
  ⟨fun _ _ h v w r => (h w v r).symm⟩

theorem setMember_comm {fields : List (Field α)} (hcomm : fields.Pairwise Field.Commutes)
    {a b : Text × Json} (hne : a.1 ≠ b.1) (r? : Option α) :
    setMember fields (setMember fields r? a) b = setMember fields (setMember fields r? b) a := by
  cases r? with
  | none => rfl
  | some r =>
      simp only [setMember, Option.bind_some]
      cases hfirst : fields.find? fun field => field.name = a.1 with
      | none => cases fields.find? fun field => field.name = b.1 <;> simp
      | some first =>
          cases hsecond : fields.find? fun field => field.name = b.1 with
          | none => simp
          | some second =>
              have hname : first.name = a.1 := by simpa using List.find?_some hfirst
              have hname' : second.name = b.1 := by simpa using List.find?_some hsecond
              have hcommutes : first.Commutes second := by
                refine hcomm.forall (List.mem_of_find?_eq_some hfirst)
                  (List.mem_of_find?_eq_some hsecond) ?_
                rintro rfl
                exact hne (hname.symm.trans hname')
              exact hcommutes a.2 b.2 r

theorem setMembers_perm {fields : List (Field α)} (hcomm : fields.Pairwise Field.Commutes)
    {members members' : List (Text × Json)} (h : members.Perm members')
    (hnodup : (members.map Prod.fst).Nodup) (r : α) :
    setMembers fields [] members r = setMembers fields [] members' r := by
  have hnodup' : (members'.map Prod.fst).Nodup := (h.map Prod.fst).nodup_iff.mp hnodup
  rw [setMembers_eq_foldl fields hnodup (by simp), setMembers_eq_foldl fields hnodup' (by simp)]
  refine h.foldl_eq' (fun a ha b hb r? => ?_) (some r)
  by_cases hname : a.1 = b.1
  · rw [List.inj_on_of_nodup_map hnodup ha hb hname]
  · exact setMember_comm hcomm hname r?

/-! ## Fields that are given -/

/-- Sets the fields for which there is a value, in order. -/
def setGiven : List (Field α) → List (Option Json) → α → Option α
  | field :: fields, some v :: vs, r => (field.set? v r).bind (setGiven fields vs)
  | _ :: fields, none :: vs, r => setGiven fields vs r
  | _, _, r => some r

/-- The members for the slots that have a value. -/
def givenMembers (slots : List (Text × Option Json)) : List (Text × Json) :=
  slots.filterMap fun slot => slot.2.map (slot.1, ·)

/-- A value that writes a record: an object with the given members in any order or, where the fields
that are given are the first ones, an array. The slots are the fields of the record in the order of
their declaration, with the values that are given. -/
inductive WritesRecord (slots : List (Text × Option Json)) : Json → Prop
  | object {members : List (Text × Json)} (h : members.Perm (givenMembers slots)) :
      WritesRecord slots (.object members)
  | array {items : List Json} {n : Nat}
      (h : slots.map Prod.snd = items.map some ++ List.replicate n none) :
      WritesRecord slots (.array items)

/-- The fields `done` were considered already, and `seen` are those of them that were given. -/
theorem setMembers_givenMembers (done : List (Field α)) {todo : List (Field α)}
    (h : ((done ++ todo).map Field.name).Nodup) {seen : List Text}
    (hseen : ∀ name, name ∈ seen → name ∈ done.map Field.name) {slots : List (Text × Option Json)}
    (hslots : slots.map Prod.fst = todo.map Field.name) (r : α) :
    setMembers (done ++ todo) seen (givenMembers slots) r
      = setGiven todo (slots.map Prod.snd) r := by
  induction todo generalizing done seen slots r with
  | nil =>
      obtain rfl : slots = [] := by simpa using hslots
      rfl
  | cons field todo ih =>
      obtain ⟨⟨name, v?⟩, slots, rfl, rfl, hslots'⟩ := List.map_eq_cons_iff.mp hslots
      have hfind := find?_of_nodup h
      have hnew : field.name ∉ seen := by
        intro hin
        rw [List.map_append, List.map_cons, List.nodup_append] at h
        exact h.2.2 _ (hseen _ hin) _ List.mem_cons_self rfl
      have hnext : ∀ name, name ∈ field.name :: seen → name ∈ (done ++ [field]).map Field.name := by
        intro name hname
        rw [List.map_append, List.mem_append]
        rcases List.mem_cons.mp hname with rfl | hname
        · exact .inr List.mem_cons_self
        · exact .inl (hseen name hname)
      rw [List.append_cons] at h hfind ⊢
      cases v? with
      | none => exact ih (done ++ [field]) h (fun name hname => hnext name (.tail _ hname)) hslots' r
      | some v =>
          have hrest := ih (done ++ [field]) h hnext hslots'
          have hmembers : givenMembers ((field.name, some v) :: slots)
              = (field.name, v) :: givenMembers slots := rfl
          rw [hmembers, setMembers, if_neg (by simpa using hnew), hfind]
          exact congrArg (field.set? v r).bind (funext hrest)

theorem record?_givenMembers {fields : List (Field α)} (h : (fields.map Field.name).Nodup)
    {slots : List (Text × Option Json)} (hslots : slots.map Prod.fst = fields.map Field.name)
    (r : α) :
    record? fields r (.object (givenMembers slots)) = setGiven fields (slots.map Prod.snd) r :=
  setMembers_givenMembers [] h (fun _ hin => absurd hin List.not_mem_nil) hslots r

theorem setGiven_replicate (fields : List (Field α)) (items : List Json) (n : Nat)
    (hlength : items.length ≤ fields.length) (r : α) :
    setGiven fields (items.map some ++ List.replicate n none) r = setItems fields items r := by
  induction fields generalizing items n r with
  | nil =>
      obtain rfl := List.eq_nil_of_length_eq_zero (Nat.le_zero.mp hlength)
      cases n <;> rfl
  | cons field fields ih =>
      cases items with
      | nil =>
          cases n with
          | zero => rfl
          | succ n => exact (ih [] n (Nat.zero_le _) r).trans (by cases fields <;> rfl)
      | cons v items =>
          exact congrArg (field.set? v r).bind
            (funext fun r => ih items n (Nat.le_of_succ_le_succ hlength) r)

theorem givenMembers_zip (names : List Text) (items : List Json) (n : Nat) :
    givenMembers (names.zip (items.map some ++ List.replicate n none)) = names.zip items := by
  induction names generalizing items with
  | nil => rfl
  | cons name names ih =>
      cases items with
      | nil =>
          rw [givenMembers, List.filterMap_eq_nil_iff.mpr]
          · rfl
          · rintro ⟨name, v?⟩ hslot
            obtain rfl : v? = none := List.eq_of_mem_replicate (List.of_mem_zip hslot).2
            rfl
      | cons v items => exact congrArg ((name, v) :: ·) (ih items)

/-- A record that is written as an array is written as well by the members for its first fields. -/
theorem record?_zip (fields : List (Field α)) (h : (fields.map Field.name).Nodup) (vs : List Json)
    (hlength : vs.length ≤ fields.length) (r : α) :
    record? fields r (.object ((fields.map Field.name).zip vs)) = setItems fields vs r := by
  generalize hvalues : vs.map some ++ List.replicate (fields.length - vs.length) none = values
  have hsame : fields.length = values.length := by
    rw [← hvalues, List.length_append, List.length_map, List.length_replicate]
    omega
  have hslots : ((fields.map Field.name).zip values).map Prod.fst = fields.map Field.name :=
    List.map_fst_zip (by simp [hsame])
  have hread := record?_givenMembers h hslots r
  rw [List.map_snd_zip (by simp [hsame]), ← hvalues, givenMembers_zip,
    setGiven_replicate fields vs _ hlength] at hread
  exact hread

theorem nodup_givenMembers {slots : List (Text × Option Json)} (h : (slots.map Prod.fst).Nodup) :
    ((givenMembers slots).map Prod.fst).Nodup := by
  have hsublist : ((givenMembers slots).map Prod.fst).Sublist (slots.map Prod.fst) := by
    induction slots with
    | nil => exact .refl _
    | cons slot slots ih =>
        obtain ⟨name, v?⟩ := slot
        have hrest := ih (List.nodup_cons.mp h).2
        cases v? with
        | none => exact hrest.cons name
        | some v => exact hrest.cons_cons name
  exact hsublist.nodup h

theorem WritesRecord.record?_eq {fields : List (Field α)} {slots : List (Text × Option Json)}
    {v : Json} (h : WritesRecord slots v) (hslots : slots.map Prod.fst = fields.map Field.name)
    (hnodup : (fields.map Field.name).Nodup) (hcomm : fields.Pairwise Field.Commutes) (r : α) :
    record? fields r v = setGiven fields (slots.map Prod.snd) r := by
  cases h with
  | @object members hperm =>
      have hmembers : ((givenMembers slots).map Prod.fst).Nodup :=
        nodup_givenMembers (hslots ▸ hnodup)
      rw [← record?_givenMembers hnodup hslots]
      exact (setMembers_perm hcomm hperm.symm hmembers r).symm
  | @array items n heq =>
      have hlength : items.length ≤ fields.length := by
        have hsame := congrArg List.length hslots
        have hvalues := congrArg List.length heq
        simp only [List.length_map, List.length_append, List.length_replicate] at hsame hvalues
        omega
      rw [heq, setGiven_replicate fields items n hlength]
      rfl

theorem setGiven_of {β γ : Type} {name : String} {read? : Json → Option β} {store : α → β → α}
    {writes : γ → Json → Prop} {f : γ → β} (hread : ∀ x v, writes x v → read? v = some (f x))
    {x? : Option γ} {v? : Option Json} (h : Option.Rel writes x? v?) (fields : List (Field α))
    (vs : List (Option Json)) (r : α) :
    setGiven (.of name read? store :: fields) (v? :: vs) r
      = setGiven fields vs ((x?.map f).elim r (store r)) := by
  cases h with
  | none => rfl
  | @some x v hwrites =>
      have hset : (Field.of name read? store).set? v r = some (store r (f x)) := by
        rw [Field.set?_of, hread x v hwrites]
        rfl
      rw [setGiven, hset]
      rfl

theorem setGiven_map {β : Type} {name : String} {read? : Json → Option β} {store : α → β → α}
    {write : β → Json} (hread : ∀ x, read? (write x) = some x) (x? : Option β)
    (fields : List (Field α)) (vs : List (Option Json)) (r : α) :
    setGiven (.of name read? store :: fields) (x?.map write :: vs) r
      = setGiven fields vs (x?.elim r (store r)) := by
  have hwrites : Option.Rel (fun x v => v = write x) x? (x?.map write) := by
    cases x? with
    | none => exact .none
    | some x => exact .some rfl
  rw [setGiven_of (f := id) (fun x v hv => by rw [hv, hread]; rfl) hwrites, Option.map_id_fun, id]

/-! ## Texts of records -/

theorem hasNumbers_ofTexts (ts : List Text) : (Json.ofTexts ts).HasNumbers := by
  rw [ofTexts, HasNumbers]
  induction ts with
  | nil => trivial
  | cons t ts ih => exact ⟨trivial, ih⟩

theorem hasNumbers_ofText? (t : Option Text) : (Json.ofText? t).HasNumbers := by
  cases t <;> trivial


theorem itemsHaveNumbers_iff {items : List Json} :
    ItemsHaveNumbers items ↔ ∀ v ∈ items, v.HasNumbers := by
  induction items with
  | nil => simp [ItemsHaveNumbers]
  | cons v items ih => simp [ItemsHaveNumbers, ih]

theorem membersHaveNumbers_iff {members : List (Text × Json)} :
    MembersHaveNumbers members ↔ ∀ member ∈ members, member.2.HasNumbers := by
  induction members with
  | nil => simp [MembersHaveNumbers]
  | cons member members ih => simp [MembersHaveNumbers, ih]

theorem WritesRecord.hasNumbers {slots : List (Text × Option Json)} {v : Json}
    (h : WritesRecord slots v) (hslots : ∀ slot ∈ slots, ∀ v ∈ slot.2, v.HasNumbers) :
    v.HasNumbers := by
  cases h with
  | object hperm =>
      refine membersHaveNumbers_iff.mpr fun member hmember => ?_
      obtain ⟨slot, hslot, hgiven⟩ := List.mem_filterMap.mp (hperm.mem_iff.mp hmember)
      obtain ⟨v, hv, rfl⟩ := Option.map_eq_some_iff.mp hgiven
      exact hslots slot hslot v hv
  | array heq =>
      refine itemsHaveNumbers_iff.mpr fun v hv => ?_
      have hmem : some v ∈ slots.map Prod.snd := by
        rw [heq, List.mem_append]
        exact .inl (List.mem_map_of_mem hv)
      obtain ⟨slot, hslot, hvalue⟩ := List.mem_map.mp hmem
      exact hslots slot hslot v hvalue

/-! ## What is refused -/

/-- What a value has to look like: it may be null, it may not, or it is a record with some fields,
in the order of their declaration. -/
inductive Shape where
  | nullable
  | value
  | record (fields : List (Text × Shape))

/-- A value does not have a shape because of null, of names that are unknown or repeated or of too
many items, at any depth. -/
inductive Shape.Refuses : Shape → Json → Prop
  | nullValue : Refuses .value .null
  | nullRecord {fields : List (Text × Shape)} : Refuses (.record fields) .null
  | unknown {fields : List (Text × Shape)} {members : List (Text × Json)} {name : Text} {v : Json}
      (hmember : (name, v) ∈ members) (hname : name ∉ fields.map Prod.fst) :
      Refuses (.record fields) (.object members)
  | repeated {fields : List (Text × Shape)} {members : List (Text × Json)}
      (h : ¬ (members.map Prod.fst).Nodup) : Refuses (.record fields) (.object members)
  | tooLong {fields : List (Text × Shape)} {items : List Json}
      (h : fields.length < items.length) : Refuses (.record fields) (.array items)
  | member {fields : List (Text × Shape)} {members : List (Text × Json)} {name : Text}
      {shape : Shape} {v : Json} (hfield : (name, shape) ∈ fields)
      (hmember : (name, v) ∈ members) (h : Refuses shape v) :
      Refuses (.record fields) (.object members)
  | item {fields : List (Text × Shape)} {items : List Json} {field : Text × Shape} {v : Json}
      (hitem : (field, v) ∈ fields.zip items) (h : Refuses field.2 v) :
      Refuses (.record fields) (.array items)

theorem of_setMembers_eq_some {fields : List (Field α)} {seen : List Text}
    {members : List (Text × Json)} {r r' : α} (h : setMembers fields seen members r = some r') :
    (members.map Prod.fst).Nodup ∧ ∀ member ∈ members, member.1 ∉ seen ∧
      ∃ field, fields.find? (fun field => field.name = member.1) = some field ∧
        ∃ s, field.set? member.2 s ≠ none := by
  induction members generalizing seen r with
  | nil => exact ⟨.nil, by simp⟩
  | cons member members ih =>
      obtain ⟨name, v⟩ := member
      rw [setMembers] at h
      split at h
      · cases h
      · next hnew =>
          split at h
          · cases h
          · next field hfind =>
              obtain ⟨s, hset, hrest⟩ := Option.bind_eq_some_iff.mp h
              obtain ⟨hnodup, hmembers⟩ := ih hrest
              refine ⟨List.nodup_cons.mpr ⟨?_, hnodup⟩, ?_⟩
              · intro hin
                obtain ⟨member, hmember, rfl⟩ := List.mem_map.mp hin
                exact (hmembers member hmember).1 List.mem_cons_self
              · rintro member (_ | ⟨_, hmember⟩)
                · exact ⟨by simpa using hnew, field, hfind, r, by simp [hset]⟩
                · obtain ⟨hunseen, hfound⟩ := hmembers member hmember
                  exact ⟨fun hin => hunseen (.tail _ hin), hfound⟩

theorem of_setItems_eq_some {fields : List (Field α)} {items : List Json} {r r' : α}
    (h : setItems fields items r = some r') :
    items.length ≤ fields.length ∧ ∀ p ∈ fields.zip items, ∃ s, p.1.set? p.2 s ≠ none := by
  induction items generalizing fields r with
  | nil => simp
  | cons v items ih =>
      cases fields with
      | nil => cases h
      | cons field fields =>
          obtain ⟨s, hset, hrest⟩ := Option.bind_eq_some_iff.mp h
          obtain ⟨hlength, hitems⟩ := ih hrest
          refine ⟨Nat.succ_le_succ hlength, ?_⟩
          rintro p (_ | ⟨_, hp⟩)
          · exact ⟨r, by simp [hset]⟩
          · exact hitems p hp

/-- A field is that of a shape and is not set by a value that the shape refuses. -/
def Field.Refuses (field : Field α) (slot : Text × Shape) : Prop :=
  field.name = slot.1 ∧ ∀ v, slot.2.Refuses v → ∀ r, field.set? v r = none

theorem Field.refuses_of {β : Type} {name : String} {read? : Json → Option β} {store : α → β → α}
    {shape : Shape} (hread : ∀ v, shape.Refuses v → read? v = none) :
    (Field.of name read? store).Refuses (name.toList, shape) := by
  refine ⟨rfl, fun v hv r => ?_⟩
  rw [Field.set?_of, hread v hv]
  rfl

variable {fields : List (Field α)} {slots : List (Text × Shape)}

theorem map_name_of_refuses (h : List.Forall₂ Field.Refuses fields slots) :
    fields.map Field.name = slots.map Prod.fst := by
  induction h with
  | nil => rfl
  | cons hfield _ ih => rw [List.map_cons, List.map_cons, hfield.1, ih]

theorem exists_field_of_mem (h : List.Forall₂ Field.Refuses fields slots) {slot : Text × Shape}
    (hslot : slot ∈ slots) : ∃ field ∈ fields, field.Refuses slot := by
  induction h with
  | nil => cases hslot
  | @cons field _ _ _ hfield _ ih =>
      rcases List.mem_cons.mp hslot with rfl | hslot
      · exact ⟨field, List.mem_cons_self, hfield⟩
      · obtain ⟨found, hfound, hrefuses⟩ := ih hslot
        exact ⟨found, List.mem_cons_of_mem _ hfound, hrefuses⟩

theorem exists_field_of_mem_zip (h : List.Forall₂ Field.Refuses fields slots) {items : List Json}
    {slot : Text × Shape} {v : Json} (hitem : (slot, v) ∈ slots.zip items) :
    ∃ field, (field, v) ∈ fields.zip items ∧ field.Refuses slot := by
  induction h generalizing items with
  | nil => cases hitem
  | @cons field _ _ _ hfield _ ih =>
      cases items with
      | nil => cases hitem
      | cons w items =>
          rcases List.mem_cons.mp hitem with heq | hitem
          · cases heq
            exact ⟨field, List.mem_cons_self, hfield⟩
          · obtain ⟨found, hfound, hrefuses⟩ := ih hitem
            exact ⟨found, List.mem_cons_of_mem _ hfound, hrefuses⟩

theorem record?_eq_none_of_refuses (hfields : List.Forall₂ Field.Refuses fields slots)
    (hnodup : (fields.map Field.name).Nodup) {v : Json} (h : (Shape.record slots).Refuses v)
    (r : α) : record? fields r v = none := by
  rw [Option.eq_none_iff_forall_ne_some]
  intro r' hread
  cases h with
  | nullRecord => cases hread
  | @unknown _ members name v hmember hname =>
      obtain ⟨field, hfind, _⟩ := ((of_setMembers_eq_some hread).2 _ hmember).2
      have hmem : field.name ∈ fields.map Field.name :=
        List.mem_map_of_mem (List.mem_of_find?_eq_some hfind)
      have heq : field.name = name := by simpa using List.find?_some hfind
      rw [map_name_of_refuses hfields, heq] at hmem
      exact hname hmem
  | repeated hrepeated => exact hrepeated (of_setMembers_eq_some hread).1
  | tooLong hlength =>
      have hle := (of_setItems_eq_some hread).1
      rw [hfields.length_eq] at hle
      omega
  | @member _ members name shape v hslot hmember hv =>
      obtain ⟨field, hfind, s, hset⟩ := ((of_setMembers_eq_some hread).2 _ hmember).2
      obtain ⟨field', hmem, hname, hrefuses⟩ := exists_field_of_mem hfields hslot
      have heq : field.name = name := by simpa using List.find?_some hfind
      obtain rfl := List.inj_on_of_nodup_map hnodup (List.mem_of_find?_eq_some hfind) hmem
        (heq.trans hname.symm)
      exact hset (hrefuses v hv s)
  | item hitem hv =>
      obtain ⟨field, hmem, _, hrefuses⟩ := exists_field_of_mem_zip hfields hitem
      obtain ⟨s, hset⟩ := (of_setItems_eq_some hread).2 _ hmem
      exact hset (hrefuses _ hv s)

end KeyLint.Json
