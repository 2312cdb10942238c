import ChatRelay.Proofs.Rooms

/-!
# Directories that differ in one subscriber

Two directories may have made the same rooms in different orders, and rooms that only one of them has.
`holder?` therefore asks for the members of a room by its name, and `SameBut` says that two
directories agree on everybody but one subscriber, the only one to hold its id. Each operation keeps
this when it is done on both sides, and when it is done on one side for that subscriber.
-/

namespace ChatRelay.Directory

open Wire

/-- Who holds the id in the room with this name; nobody if there is no such room. -/
def holder? (d : Directory) (name : String) (id : Nat) : Option Nat :=
  (d.find? name).bind fun room ↦ (d.members room).get? id

/-- The two numbers stand for rooms with one name. -/
structure SameRoom (d d' : Directory) (room room' : Nat) : Prop where
  lt : room < d.rooms.length
  lt' : room' < d'.rooms.length
  name : d'.name room' = d.name room

/-- The two directories agree on everybody but the subscriber with this number, who holds this id. -/
structure SameBut (number id : Nat) (d d' : Directory) : Prop where
  holder? : ∀ name other, other ≠ id → d'.holder? name other = d.holder? name other
  subscriber? : ∀ other, other ≠ number → d'.subscribers.get? other = d.subscribers.get? other

/-- Nobody but the subscriber with this number is a member of a room under this id. -/
def HeldBy (d : Directory) (number id : Nat) : Prop :=
  ∀ room other, (d.members room).get? id = some other → other = number

/-- Names stand for one room, members stand at their own ids, and the id is the subscriber's alone. -/
structure Orderly (d : Directory) (number id : Nat) : Prop where
  distinct : d.DistinctNames
  keyed : d.Keyed
  held : d.HeldBy number id

variable {number id : Nat} {d d' d'' : Directory}

theorem SameRoom.symm {room room' : Nat} (h : SameRoom d d' room room') :
    SameRoom d' d room' room :=
  ⟨h.lt', h.lt, h.name.symm⟩

/-- Rooms keep their names. -/
theorem SameRoom.mono {e e' : Directory} {room room' : Nat} (h : SameRoom d d' room room')
    (hgrows : d.Grows e) (hgrows' : d'.Grows e') : SameRoom e e' room room' where
  lt := Nat.lt_of_lt_of_le h.lt hgrows.length_le
  lt' := Nat.lt_of_lt_of_le h.lt' hgrows'.length_le
  name := by rw [hgrows'.name room' h.lt', hgrows.name room h.lt, h.name]

theorem SameBut.refl (number id : Nat) (d : Directory) : SameBut number id d d :=
  ⟨fun _ _ _ ↦ rfl, fun _ _ ↦ rfl⟩

theorem SameBut.symm (h : SameBut number id d d') : SameBut number id d' d :=
  ⟨fun name other hne ↦ (h.holder? name other hne).symm,
    fun other hne ↦ (h.subscriber? other hne).symm⟩

theorem SameBut.trans (h : SameBut number id d d') (h' : SameBut number id d' d'') :
    SameBut number id d d'' :=
  ⟨fun name other hne ↦ (h'.holder? name other hne).trans (h.holder? name other hne),
    fun other hne ↦ (h'.subscriber? other hne).trans (h.subscriber? other hne)⟩

/-- The same mailboxes are known by the same numbers. -/
theorem SameBut.mailbox (h : SameBut number id d d') {other : Nat} (hne : other ≠ number) :
    d'.mailbox other = d.mailbox other := by
  rw [Directory.mailbox, Directory.mailbox, h.subscriber? other hne]

/-! ## Members by the name of their room -/

/-- A room that is there is asked for its members by its name. -/
theorem holder?_name (hd : d.DistinctNames) {room : Nat} (hroom : room < d.rooms.length)
    (other : Nat) : d.holder? (d.name room) other = (d.members room).get? other := by
  rw [holder?, find?_name hd hroom, Option.bind_some]

/-- A room that is made has no members, and the others keep theirs. -/
theorem holder?_findOrCreate (d : Directory) (made name : String) (other : Nat) :
    (d.findOrCreate made).1.holder? name other = d.holder? name other := by
  cases hfind : d.find? name with
  | some room =>
      have hafter := (d.grows_findOrCreate made).find? hfind
      simp only [holder?, hfind, hafter, Option.bind_some, members_findOrCreate]
  | none =>
      rw [holder?, holder?, hfind, Option.bind_none]
      cases hafter : (d.findOrCreate made).1.find? name with
      | none => rfl
      | some room =>
          rw [Option.bind_some, members_findOrCreate]
          -- only the new room can have the name, and its number was not in use
          have hout : ¬room < d.rooms.length := by
            intro hlt
            have hname := (find?_eq_some hafter).2
            rw [(d.grows_findOrCreate made).name room hlt, name_eq_getElem d hlt] at hname
            have hnone : d.rooms.findIdx? (·.name == name) = none := hfind
            have hnot := List.findIdx?_eq_none_iff.mp hnone d.rooms[room] (List.getElem_mem hlt)
            simp [hname] at hnot
          rw [members, List.getElem?_eq_none (Nat.le_of_not_lt hout)]
          rfl

/-- Changing the members of one room changes who is a member of the room with its name. -/
theorem holder?_updateMembers (hd : d.DistinctNames) {room : Nat} (hroom : room < d.rooms.length)
    (change : Table Nat → Table Nat) (name : String) (other : Nat) :
    (d.updateMembers room change).holder? name other =
      if name = d.name room then (change (d.members room)).get? other
      else d.holder? name other := by
  have hgrows := d.grows_updateMembers room change
  by_cases hname : name = d.name room
  · subst hname
    have hlt := Nat.lt_of_lt_of_le hroom hgrows.length_le
    rw [if_pos rfl, ← hgrows.name room hroom, holder?_name (hgrows.distinct hd) hlt,
      members_updateMembers _ _ _ _ hroom, if_pos rfl]
  · rw [if_neg hname]
    cases hfind : d.find? name with
    | some found =>
        have hafter := hgrows.find? hfind
        have hne : found ≠ room := by
          rintro rfl
          exact hname (find?_eq_some hfind).2.symm
        simp only [holder?, hfind, hafter, Option.bind_some,
          members_updateMembers _ _ _ _ hroom, if_neg hne]
    | none =>
        have hafter : (d.updateMembers room change).find? name = none := by
          cases hafter : (d.updateMembers room change).find? name with
          | none => rfl
          | some found =>
              obtain ⟨hlt, hfound⟩ := find?_eq_some hafter
              have hlt' : found < d.rooms.length := by simpa [updateMembers] using hlt
              rw [hgrows.name found hlt'] at hfound
              rw [← hfound, find?_name hd hlt'] at hfind
              cases hfind
        simp only [holder?, hfind, hafter, Option.bind_none]

/-- Changes to the members of rooms with one name keep two directories in agreement, if they change
what stands at an id by what stood there. -/
theorem SameBut.updateMembers (h : SameBut number id d d') (hd : d.DistinctNames)
    (hd' : d'.DistinctNames) {room room' : Nat} (hsame : SameRoom d d' room room')
    {change : Table Nat → Table Nat}
    (hchange : ∀ t t' : Table Nat, ∀ other, t'.get? other = t.get? other →
      (change t').get? other = (change t).get? other) :
    SameBut number id (d.updateMembers room change) (d'.updateMembers room' change) := by
  refine ⟨fun name other hne ↦ ?_, h.subscriber?⟩
  rw [holder?_updateMembers hd hsame.lt, holder?_updateMembers hd' hsame.lt', hsame.name]
  split
  · apply hchange
    rw [← holder?_name hd' hsame.lt', ← holder?_name hd hsame.lt, hsame.name]
    exact h.holder? _ other hne
  · exact h.holder? name other hne

/-- Changes to the members of a room at one id are seen at this id only. -/
theorem sameBut_updateMembers (hd : d.DistinctNames) {room : Nat} (hroom : room < d.rooms.length)
    {change : Table Nat → Table Nat}
    (hchange : ∀ (t : Table Nat) (other : Nat), other ≠ id →
      (change t).get? other = t.get? other) :
    SameBut number id d (d.updateMembers room change) := by
  refine ⟨fun name other hne ↦ ?_, fun _ _ ↦ rfl⟩
  rw [holder?_updateMembers hd hroom]
  split
  · rename_i hname
    rw [hchange _ other hne, hname, holder?_name hd hroom]
  · rfl

theorem SameBut.addMember (h : SameBut number id d d') (hd : d.DistinctNames)
    (hd' : d'.DistinctNames) {room room' : Nat} (hsame : SameRoom d d' room room') {other : Nat}
    (hne : other ≠ number) :
    SameBut number id (d.addMember room other).1 (d'.addMember room' other).1 := by
  have hsubscriber := h.subscriber? other hne
  unfold Directory.addMember
  rw [hsubscriber]
  cases d.subscribers.get? other with
  | none => exact h
  | some s =>
      have hchange (t t' : Table Nat) (key : Nat) (heq : t'.get? key = t.get? key) :
          (t'.insert s.id other).get? key = (t.insert s.id other).get? key := by
        simp [heq]
      exact h.updateMembers hd hd' hsame hchange

theorem SameBut.removeMember (h : SameBut number id d d') (hd : d.DistinctNames)
    (hd' : d'.DistinctNames) {room room' : Nat} (hsame : SameRoom d d' room room') {other : Nat}
    (hne : other ≠ number) :
    SameBut number id (d.removeMember room other).1 (d'.removeMember room' other).1 := by
  have hsubscriber := h.subscriber? other hne
  unfold Directory.removeMember
  rw [hsubscriber]
  cases d.subscribers.get? other with
  | none => exact h
  | some s =>
      have hchange (t t' : Table Nat) (key : Nat) (heq : t'.get? key = t.get? key) :
          (t'.erase s.id).get? key = (t.erase s.id).get? key := by
        simp [heq]
      exact h.updateMembers hd hd' hsame hchange

/-! ## Subscribers -/

/-- A broadcast moves nobody. -/
theorem holder?_broadcast (d : Directory) (room : Nat) (sender text name : String) (other : Nat) :
    (d.broadcast room sender text).1.holder? name other = d.holder? name other := by
  have hrooms : (d.broadcast room sender text).1.rooms = d.rooms := rooms_deliver d _ _
  simp only [Directory.holder?, find?, members, hrooms]

/-- The others who are members of rooms with one name are the same. -/
theorem SameBut.mem_values_iff (h : SameBut number id d d') (hd : d.Orderly number id)
    (hd' : d'.Orderly number id) {room room' : Nat} (hsame : SameRoom d d' room room') {other : Nat}
    (hne : other ≠ number) :
    other ∈ (d'.members room').values ↔ other ∈ (d.members room).values := by
  rw [Table.mem_values_iff, Table.mem_values_iff]
  have hkey (key : Nat) (hother : key ≠ id) :
      (d'.members room').get? key = (d.members room).get? key := by
    rw [← holder?_name hd'.distinct hsame.lt', ← holder?_name hd.distinct hsame.lt, hsame.name,
      h.holder? _ key hother]
  constructor
  · intro ⟨key, hmember⟩
    have hother : key ≠ id := fun heq ↦ hne (hd'.held room' other (heq ▸ hmember))
    exact ⟨key, by rwa [← hkey key hother]⟩
  · intro ⟨key, hmember⟩
    have hother : key ≠ id := fun heq ↦ hne (hd.held room other (heq ▸ hmember))
    exact ⟨key, by rwa [hkey key hother]⟩

/-- A broadcast on rooms with one name reaches the same members. -/
theorem SameBut.broadcast (h : SameBut number id d d') (hd : d.Orderly number id)
    (hd' : d'.Orderly number id) {room room' : Nat} (hsame : SameRoom d d' room room')
    (sender text : String) :
    SameBut number id (d.broadcast room sender text).1 (d'.broadcast room' sender text).1 := by
  refine ⟨fun name other hne ↦ ?_, fun other hne ↦ ?_⟩
  · rw [holder?_broadcast, holder?_broadcast]
    exact h.holder? name other hne
  · simp only [Directory.broadcast]
    rw [get?_deliver d' _ (hd'.keyed.nodup_values room'),
      get?_deliver d _ (hd.keyed.nodup_values room), hsame.name, h.subscriber? other hne]
    simp only [h.mem_values_iff hd hd' hsame hne]

/-- A broadcast on a room in which nobody else sits reaches nobody else. -/
theorem sameBut_broadcast (hd : d.Orderly number id) {room : Nat} (hroom : room < d.rooms.length)
    (hempty : ∀ other, other ≠ id → d.holder? (d.name room) other = none) (sender text : String) :
    SameBut number id d (d.broadcast room sender text).1 := by
  refine ⟨fun name other _ ↦ holder?_broadcast d room sender text name other, fun other hne ↦ ?_⟩
  simp only [Directory.broadcast]
  rw [get?_deliver d _ (hd.keyed.nodup_values room), if_neg]
  rw [Table.mem_values_iff]
  rintro ⟨key, hmember⟩
  by_cases hkey : key = id
  · exact hne (hd.held room other (hkey ▸ hmember))
  · have hnone := hempty key hkey
    rw [holder?_name hd.distinct hroom, hmember] at hnone
    cases hnone

theorem SameBut.subscribe (h : SameBut number id d d') (other key : Nat) (username : String) :
    SameBut number id (d.subscribe other key username) (d'.subscribe other key username) := by
  refine ⟨h.holder?, fun third hne ↦ ?_⟩
  simp only [Directory.subscribe, Table.get?_insert]
  rw [h.subscriber? third hne]

theorem sameBut_subscribe (number id : Nat) (d : Directory) (username : String) :
    SameBut number id d (d.subscribe number id username) := by
  refine ⟨fun _ _ _ ↦ rfl, fun other hne ↦ ?_⟩
  simp only [Directory.subscribe, Table.get?_insert, if_neg hne]

theorem SameBut.updateMailbox (h : SameBut number id d d') (other : Nat)
    (change : Mailbox → Mailbox) :
    SameBut number id (d.updateMailbox other change) (d'.updateMailbox other change) := by
  refine ⟨h.holder?, fun third hne ↦ ?_⟩
  simp only [Directory.updateMailbox, Table.get?_modify]
  rw [h.subscriber? third hne]

theorem sameBut_updateMailbox (number id : Nat) (d : Directory) (change : Mailbox → Mailbox) :
    SameBut number id d (d.updateMailbox number change) := by
  refine ⟨fun _ _ _ ↦ rfl, fun other hne ↦ ?_⟩
  simp only [Directory.updateMailbox, Table.get?_modify, if_neg hne]

/-! ## Making rooms -/

theorem sameBut_findOrCreate (number id : Nat) (d : Directory) (name : String) :
    SameBut number id d (d.findOrCreate name).1 :=
  ⟨fun other key _ ↦ holder?_findOrCreate d name other key,
    fun other _ ↦ by rw [subscribers_findOrCreate]⟩

theorem SameBut.findOrCreate (h : SameBut number id d d') (name : String) :
    SameBut number id (d.findOrCreate name).1 (d'.findOrCreate name).1 :=
  ((sameBut_findOrCreate number id d name).symm.trans h).trans
    (sameBut_findOrCreate number id d' name)

/-- The rooms found or made under one name have it. -/
theorem sameRoom_findOrCreate (d d' : Directory) (name : String) :
    SameRoom (d.findOrCreate name).1 (d'.findOrCreate name).1 (d.findOrCreate name).2
      (d'.findOrCreate name).2 :=
  ⟨d.findOrCreate_lt name, d'.findOrCreate_lt name, by
    rw [name_findOrCreate, name_findOrCreate]⟩

end ChatRelay.Directory
