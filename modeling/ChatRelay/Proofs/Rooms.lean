import ChatRelay.Directory

/-!
# What the operations on a directory change

For each operation: which rooms have which names and members after it, who is enrolled, and what the
mailboxes hold. `Grows` collects what no operation takes back: rooms keep their names, and distinct
names stay distinct. `Keyed` says that the members of rooms stand at their own ids, so that nobody is a
member of a room twice.
-/

namespace ChatRelay.Table

variable {α : Type}

/-- The entries are the keys with what stands at them. -/
theorem mem_entries_iff {t : Table α} {key : Nat} {value : α} :
    (key, value) ∈ t.entries ↔ t.get? key = some value := by
  constructor
  · intro hmem
    have hnodup := t.nodup
    unfold get?
    generalize t.entries = entries at hmem hnodup
    induction entries with
    | nil => cases hmem
    | cons first rest ih =>
        simp only [List.map_cons, List.nodup_cons] at hnodup
        rcases List.mem_cons.mp hmem with rfl | htail
        · simp
        · have hne : first.1 ≠ key := by
            rintro rfl
            exact hnodup.1 (List.mem_map.mpr ⟨_, htail, rfl⟩)
          rw [List.find?_cons_of_neg (by simpa using hne)]
          exact ih htail hnodup.2
  · intro h
    obtain ⟨entry, hfind, rfl⟩ := Option.map_eq_some_iff.mp h
    have hkey : entry.1 = key := by simpa using List.find?_some hfind
    rw [← hkey]
    exact List.mem_of_find?_eq_some hfind

/-- A value stands at some key. -/
theorem mem_values_iff {t : Table α} {value : α} :
    value ∈ t.values ↔ ∃ key, t.get? key = some value := by
  simp [values, ← mem_entries_iff]

/-- Values that stand at one key each do not repeat. -/
theorem nodup_values_of_inj {t : Table α} (h : ∀ key other value,
    t.get? key = some value → t.get? other = some value → key = other) : t.values.Nodup := by
  have hkeys := List.pairwise_map.mp t.nodup
  refine List.pairwise_map.mpr (hkeys.imp_of_mem fun hentry hother hne heq ↦ hne ?_)
  exact h _ _ _ (mem_entries_iff.mp hentry) (heq ▸ mem_entries_iff.mp hother)

end ChatRelay.Table

namespace ChatRelay.Directory

open Wire

/-- The id of the subscriber with this number. -/
def id? (d : Directory) (number : Nat) : Option Nat :=
  (d.subscribers.get? number).map (·.id)

/-- The subscriber with this number is there, and this is its id. -/
def Enrolled (d : Directory) (number id : Nat) : Prop :=
  d.id? number = some id

/-- No two rooms have one name. -/
def DistinctNames (d : Directory) : Prop :=
  (d.rooms.map (·.name)).Nodup

/-- What no operation takes back. -/
structure Grows (d d' : Directory) : Prop where
  length_le : d.rooms.length ≤ d'.rooms.length
  name : ∀ room < d.rooms.length, d'.name room = d.name room
  distinct : d.DistinctNames → d'.DistinctNames

theorem Grows.refl (d : Directory) : Grows d d :=
  ⟨Nat.le_refl _, fun _ _ ↦ rfl, fun h ↦ h⟩

theorem Grows.trans {d d' d'' : Directory} (h : Grows d d') (h' : Grows d' d'') : Grows d d'' where
  length_le := Nat.le_trans h.length_le h'.length_le
  name room hroom :=
    (h'.name room (Nat.lt_of_lt_of_le hroom h.length_le)).trans (h.name room hroom)
  distinct hd := h'.distinct (h.distinct hd)

/-! ## Names -/

/-- The names of the rooms, in the order in which the rooms were made. -/
def roomNames (d : Directory) : List String :=
  d.rooms.map (·.name)

theorem name_eq (d : Directory) (room : Nat) : d.name room = (d.roomNames[room]?).getD "" := by
  rw [name, roomNames, List.getElem?_map]
  cases d.rooms[room]? <;> rfl

theorem find?_eq (d : Directory) (name : String) :
    d.find? name = d.roomNames.findIdx? (· == name) := by
  rw [find?, roomNames, List.findIdx?_map]
  rfl

theorem name_eq_getElem (d : Directory) {room : Nat} (h : room < d.rooms.length) :
    d.name room = d.rooms[room].name := by
  simp [name, h]

/-- The room found has the name asked for. -/
theorem find?_eq_some {d : Directory} {name : String} {room : Nat} (h : d.find? name = some room) :
    room < d.rooms.length ∧ d.name room = name := by
  obtain ⟨hlt, hname, -⟩ := List.findIdx?_eq_some_iff_getElem.mp h
  exact ⟨hlt, by simpa [name_eq_getElem d hlt] using hname⟩

/-- A room is found by its name. -/
theorem find?_name {d : Directory} (hd : d.DistinctNames) {room : Nat}
    (h : room < d.rooms.length) : d.find? (d.name room) = some room := by
  refine List.findIdx?_eq_some_iff_getElem.mpr ⟨h, by simp [name_eq_getElem d h], ?_⟩
  intro other hother
  have hlt : other < d.rooms.length := Nat.lt_trans hother h
  have hne : d.rooms[other].name ≠ d.rooms[room].name := by
    intro heq
    have hindex : other = room :=
      (List.getElem?_inj (by simpa using hlt) hd).mp (by simp [hlt, h, heq])
    omega
  simpa [name_eq_getElem d h] using hne

/-- A room that is found by its name stays the one that is found. -/
theorem Grows.find? {d d' : Directory} (h : Grows d d') {name : String} {room : Nat}
    (hfind : d.find? name = some room) : d'.find? name = some room := by
  obtain ⟨hlt, hroom, hfirst⟩ := List.findIdx?_eq_some_iff_getElem.mp hfind
  have hlt' : room < d'.rooms.length := Nat.lt_of_lt_of_le hlt h.length_le
  have hsame (other : Nat) (hother : other < d.rooms.length) (hother' : other < d'.rooms.length) :
      d'.rooms[other].name = d.rooms[other].name := by
    rw [← name_eq_getElem d' hother', h.name other hother, name_eq_getElem d hother]
  refine List.findIdx?_eq_some_iff_getElem.mpr ⟨hlt', ?_, fun other hother ↦ ?_⟩
  · rw [hsame room hlt hlt']
    exact hroom
  · rw [hsame other (Nat.lt_trans hother hlt) (Nat.lt_trans hother hlt')]
    exact hfirst other hother

@[simp] theorem subscribers_findOrCreate (d : Directory) (name : String) :
    (d.findOrCreate name).1.subscribers = d.subscribers := by
  unfold findOrCreate
  split <;> rfl

/-- A room that is made has no members. -/
@[simp] theorem members_findOrCreate (d : Directory) (name : String) (room : Nat) :
    (d.findOrCreate name).1.members room = d.members room := by
  unfold findOrCreate
  split
  · rfl
  · simp only [members]
    rcases Nat.lt_trichotomy room d.rooms.length with hlt | heq | hgt
    · rw [List.getElem?_append_left hlt]
    · subst heq
      simp
    · rw [List.getElem?_eq_none (by simp; omega), List.getElem?_eq_none (by omega)]

/-- The room found or made is one of the rooms. -/
theorem findOrCreate_lt (d : Directory) (name : String) :
    (d.findOrCreate name).2 < (d.findOrCreate name).1.rooms.length := by
  unfold findOrCreate
  split
  · rename_i room hroom
    exact (find?_eq_some hroom).1
  · simp

/-- Afterwards the name is found. -/
theorem find?_findOrCreate (d : Directory) (name : String) :
    (d.findOrCreate name).1.find? name = some (d.findOrCreate name).2 := by
  unfold findOrCreate
  split
  · assumption
  · rename_i hnone
    have hfind : d.rooms.findIdx? (·.name == name) = none := hnone
    simp [find?, List.findIdx?_append, hfind]

theorem grows_findOrCreate (d : Directory) (name : String) :
    Grows d (d.findOrCreate name).1 where
  length_le := by
    unfold findOrCreate
    split <;> simp
  name room hroom := by
    unfold findOrCreate
    split
    · rfl
    · simp [Directory.name, List.getElem?_append_left hroom]
  distinct hd := by
    unfold findOrCreate
    split
    · exact hd
    · rename_i hnone
      have hfresh : name ∉ d.rooms.map (·.name) := by
        intro hmem
        obtain ⟨r, hr, hname⟩ := List.mem_map.mp hmem
        have hfind : d.rooms.findIdx? (·.name == name) = none := hnone
        simpa [hname] using List.findIdx?_eq_none_iff.mp hfind r hr
      simp only [DistinctNames, List.map_append, List.map_cons, List.map_nil]
      exact List.nodup_append.mpr ⟨hd, by simp, by
        intro a ha b hb
        rw [List.mem_singleton.mp hb]
        intro heq
        exact hfresh (heq ▸ ha)⟩

/-! ## Members -/

/-- Changing the members of one room leaves those of every other. -/
theorem members_updateMembers (d : Directory) (room other : Nat) (change : Table Nat → Table Nat)
    (hroom : room < d.rooms.length) :
    (d.updateMembers room change).members other =
      if other = room then change (d.members room) else d.members other := by
  simp only [members, updateMembers, List.getElem?_modify]
  by_cases h : other = room
  · subst h
    simp [hroom]
  · simp [h, Ne.symm h]

/-- Rooms keep their names, whoever comes and goes. -/
theorem roomNames_updateMembers (d : Directory) (room : Nat) (change : Table Nat → Table Nat) :
    (d.updateMembers room change).roomNames = d.roomNames := by
  apply List.ext_getElem?
  intro other
  simp only [roomNames, updateMembers, List.getElem?_map, List.getElem?_modify]
  cases d.rooms[other]? with
  | none => rfl
  | some r => by_cases hroom : room = other <;> simp [hroom]

theorem grows_updateMembers (d : Directory) (room : Nat) (change : Table Nat → Table Nat) :
    Grows d (d.updateMembers room change) := by
  have hnames := d.roomNames_updateMembers room change
  refine ⟨by simp [updateMembers], fun other _ ↦ ?_, fun hd ↦ ?_⟩
  · rw [name_eq, name_eq, hnames]
  · rw [DistinctNames, ← roomNames, hnames]
    exact hd

theorem addMember_eq {d : Directory} {number id : Nat} (h : d.Enrolled number id) (room : Nat) :
    (d.addMember room number).1 = d.updateMembers room (·.insert id number) := by
  obtain ⟨s, hs, rfl⟩ := Option.map_eq_some_iff.mp h
  simp [addMember, hs]

theorem removeMember_eq {d : Directory} {number id : Nat} (h : d.Enrolled number id) (room : Nat) :
    (d.removeMember room number).1 = d.updateMembers room (·.erase id) := by
  obtain ⟨s, hs, rfl⟩ := Option.map_eq_some_iff.mp h
  simp [removeMember, hs]

theorem grows_addMember (d : Directory) (room number : Nat) :
    Grows d (d.addMember room number).1 := by
  unfold addMember
  cases d.subscribers.get? number with
  | none => exact .refl d
  | some s => exact grows_updateMembers d room (·.insert s.id number)

theorem grows_removeMember (d : Directory) (room number : Nat) :
    Grows d (d.removeMember room number).1 := by
  unfold removeMember
  cases d.subscribers.get? number with
  | none => exact .refl d
  | some s => exact grows_updateMembers d room (·.erase s.id)

@[simp] theorem subscribers_addMember (d : Directory) (room number : Nat) :
    (d.addMember room number).1.subscribers = d.subscribers := by
  unfold addMember
  split <;> rfl

@[simp] theorem subscribers_removeMember (d : Directory) (room number : Nat) :
    (d.removeMember room number).1.subscribers = d.subscribers := by
  unfold removeMember
  split <;> rfl

@[simp] theorem roomNames_addMember (d : Directory) (room number : Nat) :
    (d.addMember room number).1.roomNames = d.roomNames := by
  unfold addMember
  split
  · rfl
  · exact d.roomNames_updateMembers _ _

@[simp] theorem roomNames_removeMember (d : Directory) (room number : Nat) :
    (d.removeMember room number).1.roomNames = d.roomNames := by
  unfold removeMember
  split
  · rfl
  · exact d.roomNames_updateMembers _ _

/-! ## Subscribers and their mailboxes -/

/-- Whoever is taken up is enrolled, and the others stay as they were. -/
theorem id?_subscribe (d : Directory) (number id other : Nat) (username : String) :
    (d.subscribe number id username).id? other = if other = number then some id else d.id? other := by
  by_cases h : other = number <;> simp [id?, subscribe, h]

theorem grows_subscribe (d : Directory) (number id : Nat) (username : String) :
    Grows d (d.subscribe number id username) :=
  ⟨Nat.le_refl _, fun _ _ ↦ rfl, fun h ↦ h⟩

/-- A new subscriber's mailbox is empty, and the others stay as they were. -/
theorem mailbox_subscribe (d : Directory) (number id other : Nat) (username : String) :
    (d.subscribe number id username).mailbox other =
      if other = number then {} else d.mailbox other := by
  by_cases h : other = number <;> simp [mailbox, subscribe, h]

/-- Changing a mailbox leaves the others, also if there is none to change. -/
theorem mailbox_updateMailbox_of_ne (d : Directory) {number other : Nat} (h : other ≠ number)
    (change : Mailbox → Mailbox) :
    (d.updateMailbox number change).mailbox other = d.mailbox other := by
  simp [mailbox, updateMailbox, h]

/-- An enrolled subscriber's own mailbox is what changes. -/
theorem mailbox_updateMailbox_self {d : Directory} {number id : Nat} (hid : d.Enrolled number id)
    (change : Mailbox → Mailbox) :
    (d.updateMailbox number change).mailbox number = change (d.mailbox number) := by
  obtain ⟨s, hs, -⟩ := Option.map_eq_some_iff.mp hid
  rw [mailbox_updateMailbox d number number _ (by rw [hs]; rfl), if_pos rfl]

@[simp] theorem id?_updateMailbox (d : Directory) (number other : Nat)
    (change : Mailbox → Mailbox) : (d.updateMailbox number change).id? other = d.id? other := by
  simp only [id?, updateMailbox, Table.get?_modify]
  split
  · rw [Option.map_map]
    rfl
  · rfl

theorem grows_updateMailbox (d : Directory) (number : Nat) (change : Mailbox → Mailbox) :
    Grows d (d.updateMailbox number change) :=
  ⟨Nat.le_refl _, fun _ _ ↦ rfl, fun h ↦ h⟩

@[simp] theorem id?_deliver (d : Directory) (m : Message) (numbers : List Nat) (other : Nat) :
    (d.deliver m numbers).id? other = d.id? other := by
  unfold deliver
  induction numbers generalizing d with
  | nil => rfl
  | cons number rest ih => rw [List.foldl_cons, ih, id?_updateMailbox]

/-! ## Broadcasts -/

theorem grows_deliver (d : Directory) (m : Message) (numbers : List Nat) :
    Grows d (d.deliver m numbers) := by
  unfold deliver
  induction numbers generalizing d with
  | nil => exact .refl d
  | cons number rest ih => exact (grows_updateMailbox d number _).trans (ih _)

theorem grows_broadcast (d : Directory) (room : Nat) (sender text : String) :
    Grows d (d.broadcast room sender text).1 :=
  grows_deliver d _ _

@[simp] theorem members_deliver (d : Directory) (m : Message) (numbers : List Nat) (room : Nat) :
    (d.deliver m numbers).members room = d.members room := by
  simp [members]

@[simp] theorem members_broadcast (d : Directory) (room : Nat) (sender text : String)
    (other : Nat) : (d.broadcast room sender text).1.members other = d.members other :=
  members_deliver d _ _ other

@[simp] theorem roomNames_broadcast (d : Directory) (room : Nat) (sender text : String) :
    (d.broadcast room sender text).1.roomNames = d.roomNames :=
  congrArg (List.map Room.name) (rooms_deliver _ _ _)

/-- A message delivered to these subscribers, none of them twice, is enqueued once for each of them,
and nowhere else. -/
theorem get?_deliver (d : Directory) (m : Message) {numbers : List Nat} (hnodup : numbers.Nodup)
    (number : Nat) :
    (d.deliver m numbers).subscribers.get? number =
      if number ∈ numbers then
        (d.subscribers.get? number).map fun s ↦ { s with mailbox := s.mailbox.enqueue m }
      else d.subscribers.get? number := by
  unfold deliver
  induction numbers generalizing d with
  | nil => simp
  | cons first rest ih =>
      rw [List.nodup_cons] at hnodup
      rw [List.foldl_cons, ih _ hnodup.2]
      simp only [updateMailbox, Table.get?_modify]
      by_cases heq : number = first
      · subst heq
        simp [hnodup.1]
      · simp [heq]

/-- Members stand at their own ids. -/
def Keyed (d : Directory) : Prop :=
  ∀ room key number, (d.members room).get? key = some number → d.id? number = some key

/-- Nobody is a member of a room twice. -/
theorem Keyed.nodup_values {d : Directory} (h : d.Keyed) (room : Nat) :
    (d.members room).values.Nodup := by
  refine Table.nodup_values_of_inj fun key other number hkey hother ↦ ?_
  have hid := h room key number hkey
  rw [h room other number hother] at hid
  exact (Option.some.inj hid).symm

/-- A broadcast is enqueued once in the mailbox of each member of the room, and nowhere else. -/
theorem Keyed.mailbox_broadcast {d : Directory} (h : d.Keyed) (room : Nat) (sender text : String)
    (number : Nat) :
    (d.broadcast room sender text).1.mailbox number =
      if number ∈ (d.members room).values then
        (d.mailbox number).enqueue (Delivery.message ⟨d.name room, sender, text⟩)
      else d.mailbox number := by
  simp only [broadcast, mailbox, get?_deliver d _ (h.nodup_values room)]
  by_cases hmember : number ∈ (d.members room).values
  · obtain ⟨key, hkey⟩ := Table.mem_values_iff.mp hmember
    obtain ⟨s, hs, -⟩ := Option.map_eq_some_iff.mp (h room key number hkey)
    simp [hmember, hs]
  · simp [hmember]

/-- An enrolled subscriber is a member of a room if it stands there at its id. -/
theorem Keyed.mem_values_iff {d : Directory} (h : d.Keyed) {number id : Nat}
    (hid : d.Enrolled number id) (room : Nat) :
    number ∈ (d.members room).values ↔ (d.members room).get? id = some number := by
  rw [Table.mem_values_iff]
  constructor
  · intro ⟨key, hkey⟩
    obtain rfl := Option.some.inj ((h room key number hkey).symm.trans hid)
    exact hkey
  · exact fun hkey ↦ ⟨id, hkey⟩

end ChatRelay.Directory
