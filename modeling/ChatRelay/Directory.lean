import ChatRelay.Mailbox.Basic
import ChatRelay.Table
import ChatRelay.Wire.Delivery

/-!
# Rooms and their subscribers

A directory holds every room, in the order in which the rooms were made, and every subscriber under a
number of its own. A room is known by its place in that order. A room's members are a table from
session ids to subscribers, so that of two subscribers with one id only one is a member at a time.
Rooms are found by name and never removed.
-/

namespace ChatRelay

open Wire

/-- A subscriber with its pending deliveries. The id is that of its session; the username need not be
unique. -/
structure Subscriber where
  id : Nat
  username : String
  mailbox : Mailbox := {}

/-- A room, with the numbers of its members by their ids. -/
structure Room where
  name : String
  members : Table Nat := {}

/-- All rooms, and all subscribers by their numbers. -/
structure Directory where
  rooms : List Room := []
  subscribers : Table Subscriber := {}

namespace Directory

/-- The room with this name. -/
def find? (d : Directory) (name : String) : Option Nat :=
  d.rooms.findIdx? (·.name == name)

/-- The room with this name, made at the end of the list if there is none. -/
def findOrCreate (d : Directory) (name : String) : Directory × Nat :=
  match d.find? name with
  | some room => (d, room)
  | none => ({ d with rooms := d.rooms ++ [{ name }] }, d.rooms.length)

/-- The name of a room. -/
def name (d : Directory) (room : Nat) : String :=
  match d.rooms[room]? with
  | some r => r.name
  | none => ""

/-- The members of a room. -/
def members (d : Directory) (room : Nat) : Table Nat :=
  match d.rooms[room]? with
  | some r => r.members
  | none => {}

/-- Take up a subscriber under this number. It is a member of no room yet. -/
def subscribe (d : Directory) (number id : Nat) (username : String) : Directory :=
  { d with subscribers := d.subscribers.insert number { id, username } }

/-- The mailbox of a subscriber. -/
def mailbox (d : Directory) (number : Nat) : Mailbox :=
  match d.subscribers.get? number with
  | some s => s.mailbox
  | none => {}

/-- Change the mailbox of one subscriber. -/
def updateMailbox (d : Directory) (number : Nat) (change : Mailbox → Mailbox) : Directory :=
  { d with
    subscribers := d.subscribers.modify number fun s ↦ { s with mailbox := change s.mailbox } }

/-- Change the members of one room. -/
def updateMembers (d : Directory) (room : Nat) (change : Table Nat → Table Nat) : Directory :=
  { d with rooms := d.rooms.modify room fun r ↦ { r with members := change r.members } }

/-- Make a subscriber a member, in place of whoever held its id; the answer is whether nobody did. -/
def addMember (d : Directory) (room number : Nat) : Directory × Bool :=
  match d.subscribers.get? number with
  | none => (d, false)
  | some s =>
      (d.updateMembers room (·.insert s.id number), !(d.members room).contains s.id)

/-- Take out whoever holds the subscriber's id; the answer is whether anybody did. -/
def removeMember (d : Directory) (room number : Nat) : Directory × Bool :=
  match d.subscribers.get? number with
  | none => (d, false)
  | some s => (d.updateMembers room (·.erase s.id), (d.members room).contains s.id)

/-- Put a message into the mailboxes of these subscribers, one after the other. -/
def deliver (d : Directory) (m : Message) (numbers : List Nat) : Directory :=
  numbers.foldl (fun d number ↦ d.updateMailbox number (·.enqueue m)) d

/-- Send a text to every member of a room; the answer is how many there are. -/
def broadcast (d : Directory) (room : Nat) (sender text : String) : Directory × Nat :=
  let m := Delivery.message ⟨d.name room, sender, text⟩
  (d.deliver m (d.members room).values, (d.members room).size)

/-- The names of all rooms in the order of their characters. -/
def names (d : Directory) : List String :=
  (d.rooms.map (·.name)).mergeSort (· ≤ ·)

/-- Each room's name and how many members it has, in the order of the names. -/
def census (d : Directory) : List (String × Nat) :=
  (d.rooms.map fun r ↦ (r.name, r.members.size)).mergeSort (·.1 ≤ ·.1)

@[simp] theorem rooms_updateMailbox (d : Directory) (number : Nat)
    (change : Mailbox → Mailbox) : (d.updateMailbox number change).rooms = d.rooms :=
  rfl

@[simp] theorem rooms_deliver (d : Directory) (m : Message) (numbers : List Nat) :
    (d.deliver m numbers).rooms = d.rooms := by
  unfold deliver
  induction numbers generalizing d with
  | nil => rfl
  | cons number rest ih => rw [List.foldl_cons, ih, rooms_updateMailbox]

/-- Changing one mailbox leaves every other as it was. -/
theorem mailbox_updateMailbox (d : Directory) (number other : Nat) (change : Mailbox → Mailbox)
    (hsome : (d.subscribers.get? number).isSome) :
    (d.updateMailbox number change).mailbox other =
      if other = number then change (d.mailbox other) else d.mailbox other := by
  simp only [mailbox, updateMailbox, Table.get?_modify]
  by_cases h : other = number
  · subst h
    obtain ⟨s, hs⟩ := Option.isSome_iff_exists.mp hsome
    simp [hs]
  · simp [h]

/-- The room found or made has the name asked for. -/
theorem name_findOrCreate (d : Directory) (name : String) :
    (d.findOrCreate name).1.name (d.findOrCreate name).2 = name := by
  unfold findOrCreate
  split
  · rename_i room hroom
    obtain ⟨hlt, hname, -⟩ := List.findIdx?_eq_some_iff_getElem.mp hroom
    simp only [Directory.name, List.getElem?_eq_getElem hlt]
    simpa using hname
  · simp [Directory.name]

end Directory

end ChatRelay
