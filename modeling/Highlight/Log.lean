import Highlight.Selector
import Highlight.SyntaxError
import Highlight.Theme.Metadata

/-!
# The log

What the library has to tell besides its results. Each event happens in one place of the library,
and is shown as a record: how much it matters, where it comes from, and a message.
-/

namespace Highlight

/-- How much a record matters, the least first. -/
inductive Level
  | trace
  | debug
  | warn
deriving DecidableEq

structure Record where
  level : Level
  target : String
  message : String
deriving DecidableEq

inductive Event
  /-- A text was read as a selector of so many composites. -/
  | accepted (text : String) (composites : Nat)
  /-- A text was not a selector. -/
  | refused (text : String) (error : SyntaxError)
  /-- A style was left out of a theme. -/
  | skipped (index : Nat) (name : Option String) (error : SyntaxError)
  /-- A theme was loaded, with so many styles kept and left out. -/
  | loaded (kept rejected : Nat) (metadata : Metadata)
deriving DecidableEq

namespace Event

/-- The event of reading `text` as a selector. -/
def ofParse (text : String) : Except SyntaxError Selector → Event
  | .ok s => .accepted text s.composites.length
  | .error e => .refused text e

def level : Event → Level
  | .accepted .. => .trace
  | .refused .. => .debug
  | .skipped .. => .warn
  | .loaded .. => .debug

def target : Event → String
  | .accepted .. | .refused .. => "scope_selector::parse"
  | .skipped .. | .loaded .. => "scope_selector::theme"

def message : Event → String
  | .accepted text composites =>
      "parsed selector " ++ Text.quoted text ++ " into " ++ toString composites ++ " composite(s)"
  | .refused text error => "rejected selector " ++ Text.quoted text ++ ": " ++ error.message
  | .skipped index name error =>
      "skipping style #" ++ toString index ++ " (" ++ name.getD "unnamed" ++ "): " ++ error.message
  | .loaded kept rejected metadata =>
      "loaded " ++ toString kept ++ " style(s), rejected " ++ toString rejected ++ "; metadata: " ++
        ", ".intercalate (metadata.entries.map fun (key, value) =>
          key.text ++ "=" ++ Text.quoted value)

def record (e : Event) : Record := ⟨e.level, e.target, e.message⟩

end Event

end Highlight
