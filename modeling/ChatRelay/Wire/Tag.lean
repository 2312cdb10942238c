/-!
# Message tags

The nine kinds of message and their symbols on the wire. `ofSymbol?_eq_some_iff` says that a symbol
is read as the tag that writes it.
-/

namespace ChatRelay.Wire

/-- The kind of a message. `slogin` and `rlogin` log in as a publisher and as a subscriber. -/
inductive Tag where
  | slogin
  | rlogin
  | join
  | leave
  | sendall
  | quit
  | ok
  | err
  | delivery
  deriving DecidableEq, Repr

namespace Tag

/-- All tags, in the order of the protocol's table. -/
def all : List Tag :=
  [slogin, rlogin, join, leave, sendall, quit, ok, err, delivery]

/-- How the tag is written. -/
def symbol : Tag → String
  | slogin => "slogin"
  | rlogin => "rlogin"
  | join => "join"
  | leave => "leave"
  | sendall => "sendall"
  | quit => "quit"
  | ok => "ok"
  | err => "err"
  | delivery => "delivery"

/-- The tag written this way. -/
def ofSymbol? (text : String) : Option Tag :=
  all.find? (·.symbol == text)

/-- The tag opens a session. -/
def isLogin : Tag → Bool
  | slogin | rlogin => true
  | _ => false

theorem ofSymbol?_symbol (tag : Tag) : ofSymbol? tag.symbol = some tag := by
  cases tag <;> decide

/-- A symbol is read as the tag that writes it, and no other text is read. -/
theorem ofSymbol?_eq_some_iff {text : String} {tag : Tag} :
    ofSymbol? text = some tag ↔ text = tag.symbol := by
  constructor
  · intro h
    have hfound : all.find? (fun t ↦ t.symbol == text) = some tag := h
    have hsymbol := List.find?_some hfound
    exact (beq_iff_eq.mp hsymbol).symm
  · rintro rfl
    exact ofSymbol?_symbol tag

theorem symbol_injective {left right : Tag} (h : left.symbol = right.symbol) : left = right := by
  have hleft := ofSymbol?_symbol left
  rw [h, ofSymbol?_symbol right] at hleft
  exact (Option.some.inj hleft).symm

/-- A symbol is made of small letters. -/
theorem symbol_letters (tag : Tag) : tag.symbol.toList.all Char.isLower = true := by
  cases tag <;> decide

end Tag

end ChatRelay.Wire
