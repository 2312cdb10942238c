import ChatRelay.Wire.Message

/-!
# Deliveries

A broadcast reaches its subscribers as a message whose payload is `room:sender:text`. The text may
hold colons, the room and the sender may not. `ofPayload_payload` says that such a delivery is read
back, `payload_of_ofPayload` that a payload is read as nothing else.
-/

namespace ChatRelay.Wire

open ChatRelay.Text

/-- A broadcast as a subscriber sees it. -/
structure Delivery where
  room : String
  sender : String
  text : String
  deriving DecidableEq, Repr

namespace Delivery

/-- The payload that carries the delivery. -/
def payload (d : Delivery) : String :=
  String.ofList (d.room.toList ++ delimiter :: d.sender.toList ++ delimiter :: d.text.toList)

/-- The length of the payload, without building it. -/
def payloadSize (d : Delivery) : Nat :=
  size d.room + size d.sender + size d.text + 2

/-- The message that carries the delivery. -/
def message (d : Delivery) : Message :=
  ⟨.delivery, d.payload⟩

/-- Read a payload: room and sender end at the first two colons, the rest is the text. -/
def ofPayload (text : String) : Except Violation Delivery :=
  match text.toList.dropWhile (· != delimiter) with
  | [] => .error .malformedDelivery
  | _ :: tail =>
      match tail.dropWhile (· != delimiter) with
      | [] => .error .malformedDelivery
      | _ :: rest =>
          .ok {
            room := String.ofList (text.toList.takeWhile (· != delimiter))
            sender := String.ofList (tail.takeWhile (· != delimiter))
            text := String.ofList rest }

theorem size_payload (d : Delivery) : size d.payload = d.payloadSize := by
  have hjoin : d.payload = d.room ++ ":" ++ d.sender ++ ":" ++ d.text := by
    apply String.toList_inj.mp
    simp [payload, delimiter]
  rw [hjoin]
  simp only [size, payloadSize, String.utf8ByteSize_append]
  have hcolon : ":".utf8ByteSize = 1 := by decide
  omega

/-- A payload that is read is the payload of what was read. -/
theorem payload_of_ofPayload {text : String} {d : Delivery} (h : ofPayload text = .ok d) :
    d.payload = text := by
  apply String.toList_inj.mp
  have hroom : text.toList.takeWhile (· != delimiter) ++ text.toList.dropWhile (· != delimiter) =
      text.toList := List.takeWhile_append_dropWhile
  cases hd : text.toList.dropWhile (· != delimiter) with
  | nil => simp [ofPayload, hd] at h
  | cons first tail =>
      have hsender : tail.takeWhile (· != delimiter) ++ tail.dropWhile (· != delimiter) = tail :=
        List.takeWhile_append_dropWhile
      cases he : tail.dropWhile (· != delimiter) with
      | nil => simp [ofPayload, hd, he] at h
      | cons second rest =>
          simp only [ofPayload, hd, he, Except.ok.injEq] at h
          subst h
          have hfirst : first = delimiter := by
            have hnot := List.head?_dropWhile_not (· != delimiter) text.toList
            rw [hd] at hnot
            simpa using hnot
          have hsecond : second = delimiter := by
            have hnot := List.head?_dropWhile_not (· != delimiter) tail
            rw [he] at hnot
            simpa using hnot
          rw [hd] at hroom
          rw [he] at hsender
          subst hfirst hsecond
          simp only [payload, String.toList_ofList, List.append_assoc, List.cons_append, hsender,
            hroom]

/-- A delivery whose room and sender hold no colon is read back. -/
theorem ofPayload_payload (d : Delivery) (hroom : delimiter ∉ d.room.toList)
    (hsender : delimiter ∉ d.sender.toList) : ofPayload d.payload = .ok d := by
  have hpass : ∀ name : String, delimiter ∉ name.toList →
      ∀ c ∈ name.toList, (c != delimiter) = true := by
    intro name hname c hc
    simp only [bne_iff_ne, ne_eq]
    rintro rfl
    exact hname hc
  have htail (name : String) (hname : delimiter ∉ name.toList) (rest : List Char) :
      (name.toList ++ delimiter :: rest).dropWhile (· != delimiter) = delimiter :: rest ∧
        (name.toList ++ delimiter :: rest).takeWhile (· != delimiter) = name.toList := by
    constructor
    · rw [List.dropWhile_append_of_pos (hpass name hname), List.dropWhile_cons_of_neg (by simp)]
    · rw [List.takeWhile_append_of_pos (hpass name hname), List.takeWhile_cons_of_neg (by simp),
        List.append_nil]
  simp only [ofPayload, payload, String.toList_ofList, List.append_assoc, List.cons_append,
    (htail d.room hroom _).1, (htail d.room hroom _).2, (htail d.sender hsender _).1,
    (htail d.sender hsender _).2, String.ofList_toList]

/-- How the delivery is shown to its reader. -/
def display (d : Delivery) : String :=
  d.sender ++ ": " ++ d.text

end Delivery

end ChatRelay.Wire
