/-
Documents and what should become of them: the content of an element (`Item`), the events the reader delivers for it, and
the tree of its elements and texts (CDATA is text), each under its own parent and in order. Comments, processing
instructions and white space do not appear in the tree.

`Clean` singles out the documents that `ProcessNode` reads right. It takes an element to end at the next event that bears
its name, and skips comments only in front of a start tag; so
- a processing instruction before the root, a CDATA section, a direct child element with its parent's name (unless a
  comment stands right before it), and a comment that is followed by anything but a start tag, all spoil the tree;
- a processing instruction inside the root is harmless only when it bears the name of the element it is in, and all
  that is left unread by the elements that end early on its account is white space up to the next name (`leave`).
-/
import NdnDash.Xml.DomParser

namespace NdnDash.Xml

/-! ## Documents -/

/-- content of an element -/
inductive Item where
  | elem (name : XmlName) (attributes : Attributes) (children : List Item)
  | empty (name : XmlName) (attributes : Attributes)
  | text (value : Str)
  | cdata (value : Str)
  | comment
  | pi (target : XmlName)
  | space
deriving Repr

/-- what may stand beside the root element -/
inductive Misc where
  | comment
  | pi (target : XmlName)
deriving DecidableEq, Repr

structure Document where
  prolog : List Misc
  name : XmlName
  attributes : Attributes
  /-- `none` for an empty-element tag -/
  children : Option (List Item)
  epilog : List Misc

mutual

/-- the events of an item, in document order -/
def Item.events : Item → List Event
  | .elem name attributes children =>
    .startElement name attributes false :: (events children ++ [.endElement name attributes])
  | .empty name attributes => [.startElement name attributes true]
  | .text value => [.text value]
  | .cdata _ => [.cdata]
  | .comment => [.comment]
  | .pi target => [.processingInstruction target]
  | .space => [.whiteSpace]

/-- the events of a content -/
def events : List Item → List Event
  | [] => []
  | i :: is => i.events ++ events is

end

mutual

/-- what of an item belongs in the tree -/
def Item.tree (mpdPath : Str) : Item → Option Node
  | .elem name attributes children =>
    some (nodeOf mpdPath (.startElement name attributes false) (trees mpdPath children))
  | .empty name attributes => some (nodeOf mpdPath (.startElement name attributes true) [])
  | .text value | .cdata value => some (textNode value)
  | .comment | .pi _ | .space => none

/-- what of a content belongs in the tree -/
def trees (mpdPath : Str) : List Item → List Node
  | [] => []
  | i :: is => (i.tree mpdPath).toList ++ trees mpdPath is

end

def Misc.event : Misc → Event
  | .comment => .comment
  | .pi target => .processingInstruction target

/-- the root as an item -/
def Document.root (d : Document) : Item :=
  match d.children with
  | some children => .elem d.name d.attributes children
  | none => .empty d.name d.attributes

def Document.events (d : Document) : List Event :=
  d.prolog.map Misc.event ++ (d.root.events ++ d.epilog.map Misc.event)

/-! ## The documents that are read right -/

/-- where the reading of an element stops: at its end tag, or early, with these events of it still unread -/
inductive Exit where
  | atEnd
  | early (unread : List Event)
deriving DecidableEq, Repr

/-- an element named `name` reads on in what a child has left unread: it ends early too, at the first event there that is
not white space, which must bear its name, with `rest` of its own unread as well -/
def leave (name : XmlName) (rest : List Event) : List Event → Option Exit
  | [] => none
  | .whiteSpace :: unread => leave name rest unread
  | e :: unread => if e.constName = name.text then some (.early (unread ++ rest)) else none

/-- the content has nothing that belongs in the tree -/
def bare : List Item → Bool
  | [] => true
  | .comment :: is | .pi _ :: is | .space :: is => bare is
  | _ :: _ => false

/-- where the reading of the content of an element stops, if it is read right; `skipping`: a comment has just been
passed, with nothing but comments and white space since -/
def exit (name : XmlName) (attributes : Attributes) : Bool → List Item → Option Exit
  | skipping, [] => if skipping then none else some .atEnd
  | skipping, .space :: is => exit name attributes skipping is
  | _, .comment :: is => exit name attributes true is
  | skipping, .text _ :: is => if skipping then none else exit name attributes false is
  | _, .cdata _ :: _ => none
  | skipping, .pi target :: is =>
    if !skipping && target = name && bare is then some (.early (events is ++ [.endElement name attributes])) else none
  | skipping, .empty child _ :: is => if !skipping && child = name then none else exit name attributes false is
  | skipping, .elem child childAttributes children :: is =>
    if !skipping && child = name then none
    else
      match exit child childAttributes false children with
      | none => none
      | some .atEnd => exit name attributes false is
      | some (.early unread) =>
        if bare is then leave name (events is ++ [.endElement name attributes]) unread else none

/-- the documents that are read right -/
def Clean (d : Document) : Prop :=
  (∀ m ∈ d.prolog, m = .comment) ∧ ∀ children, d.children = some children → (exit d.name d.attributes false children).isSome

end NdnDash.Xml
