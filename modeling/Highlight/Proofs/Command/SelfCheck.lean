import Highlight.Command.Outcome
import Highlight.Proofs.Selector.RoundTrip

/-!
# The command line checks itself

A selector that was read is read again from its own text, so the check of this never finds anything:
its bad news would be two selectors or two texts that differ, or a text that is not even read. All
that can go wrong is that the text given is no selector. For the same reason, what is written out
for a text is also what is written out for itself.
-/

namespace Highlight.Command

namespace Arguments

theorem ofString_expr (text : String) :
    Word.ofString ("--expr=" ++ text) = .option .expr (some text) := by
  have hchars : ("--expr=" ++ text).toList = "--expr=".toList ++ text.toList :=
    String.toList_append
  have hdiff : "--expr=" ++ text ≠ "--diff" := by
    intro h
    rw [← String.toList_inj, hchars] at h
    simp at h
  have hkey : ("--expr=".toList ++ text.toList).takeWhile (· != '=') = "--expr".toList := by
    simp
  have hvalue : ("--expr=".toList ++ text.toList).dropWhile (· != '=') = '=' :: text.toList := by
    simp
  rw [Word.ofString, if_neg hdiff, hchars]
  simp only [hkey, hvalue, String.ofList_toList]
  rfl

end Arguments

variable {files : String → File} {args : List String} {r : Request} {source : Source}
  {path text : String} {s : Selector} {e : SyntaxError}

/-- The command line makes the request, and its selector has this text: an expression, or what is in
a file that can be read. -/
structure Asks (files : String → File) (args : List String) (r : Request) (text : String) :
    Prop where
  request : Request.ofArguments args = some r
  read : r.source.read files = .ok text

theorem parse_text_again (hparse : Selector.parse text = .ok s) :
    Selector.parse s.text = .ok s :=
  (Selector.wellFormed_of_parse hparse).parse_text (Selector.nesting_le_of_parse hparse)

namespace Asks

theorem parse_source (h : Asks files args r text) :
    r.source.parse files =
      parsing r.source.description (Selector.parse text) >>= fun s => .ok (text, s) := by
  rw [Source.parse, h.read]
  rfl

end Asks

end Highlight.Command
