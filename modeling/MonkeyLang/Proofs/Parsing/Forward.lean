import MonkeyLang.Proofs.Parsing.Meets

/-!
# Every parser goes forward

Whatever the grammar and whatever the text, a parser only ever drops tokens from the front of what
is left, keeps the token that stands for the end, and adds diagnostics behind those that are there.
This holds of each construct if it holds of its parts, so of everything
(`Parser.forward_upTo`).

The constructs without a loop are treated for an arbitrary property of states and arbitrary reasons
to give up, so that `MonkeyLang.Proofs.Parsing.Termination` can use the same lemmas.
-/

set_option autoImplicit false

namespace MonkeyLang

/-- The parsers for the parts of a construct go forward. -/
structure Parts.Forward (able : Parser.Standing) (lost : Abort → Prop) (parts : Parts) : Prop where
  expression : ∀ threshold, (parts.expression threshold).Forward able lost
  block : parts.block.Forward able lost

namespace Parser
namespace Forward

variable {α : Type} {able : Standing} {lost : Abort → Prop} {grammar : Grammar} {parts : Parts}

/-! ## Constructs without loops -/

theorem name : name.Forward able lost :=
  .bind .current fun _ => .pure _

theorem reference : reference.Forward able lost :=
  .bind .name fun _ => .pure _

theorem boolean : boolean.Forward able lost :=
  .bind .current fun _ => .pure _

theorem parameter : parameter.Forward able lost :=
  .bind (.expect _) fun _ => .name

theorem argument (h : parts.Forward able lost) : (argument parts).Forward able lost :=
  .bind .advance fun _ => h.expression _

theorem closeStatement : closeStatement.Forward able lost :=
  .bind .upcoming fun _ => .ite .advance (.pure _)

theorem statement (h : parts.Forward able lost) : (statement parts).Forward able lost := by
  refine .bind .current fun token => ?_
  split
  · exact .bind .current fun _ => .bind (.expect _) fun _ => .bind .name fun _ =>
      .bind (.expect _) fun _ => .bind .advance fun _ => .bind (h.expression _) fun _ =>
      .bind .closeStatement fun _ => .pure _
  · exact .bind .current fun _ => .bind .advance fun _ => .bind (h.expression _) fun _ =>
      .bind .closeStatement fun _ => .pure _
  · exact .bind .current fun _ => .bind (h.expression _) fun _ => .bind .closeStatement fun _ =>
      .pure _

/-! ## All constructs, whatever makes them give up -/

theorem integer : integer.Forward able fun _ => True := by
  refine .bind .current fun token => ?_
  split
  · exact .giveUp True.intro
  · exact .ite (.giveUp True.intro) (.ite (.fail _ _) (.pure _))

theorem items {item : Parser α} (h : item.Forward able fun _ => True) :
    ∀ rounds, (items item rounds).Forward able fun _ => True
  | 0 => .giveUp True.intro
  | rounds + 1 => .bind h fun _ => .bind .upcoming fun _ =>
    .ite (.bind .advance fun _ => .bind (items h rounds) fun _ => .pure _) (.pure _)

theorem parenthesized {item : Parser α} (h : item.Forward able fun _ => True) :
    (parenthesized item).Forward able fun _ => True :=
  .bind .upcoming fun _ => .ite (.bind .advance fun _ => .pure _) <|
    .bind .remaining fun _ => .bind (items h _) fun _ => .bind (.expect _) fun _ => .pure _

variable (h : parts.Forward able fun _ => True)
include h

theorem unary : (unary parts).Forward able fun _ => True :=
  .bind .current fun _ => .bind .advance fun _ => .bind (h.expression _) fun _ => .pure _

theorem group : (group parts).Forward able fun _ => True :=
  .bind .advance fun _ => .bind (h.expression _) fun _ => .bind (.expect _) fun _ => .pure _

theorem conditional : (conditional parts).Forward able fun _ => True :=
  .bind .current fun _ => .bind (.expect _) fun _ => .bind .advance fun _ =>
    .bind (h.expression _) fun _ => .bind (.expect _) fun _ => .bind (.expect _) fun _ =>
    .bind h.block fun _ => .bind .upcoming fun _ =>
    .ite (.bind .advance fun _ => .bind (.expect _) fun _ => .bind h.block fun _ => .pure _)
      (.pure _)

theorem function : (function parts).Forward able fun _ => True :=
  .bind .current fun _ => .bind (.expect _) fun _ => .bind (.parenthesized .parameter) fun _ =>
    .bind (.expect _) fun _ => .bind h.block fun _ => .pure _

theorem opening : ∀ kind, (opening parts kind).Forward able fun _ => True
  | .reference => .reference
  | .integer => .integer
  | .boolean => .boolean
  | .unary => unary h
  | .group => group h
  | .conditional => conditional h
  | .function => function h

theorem continuation : ∀ kind left, (continuation parts kind left).Forward able fun _ => True
  | .binary, _ => .bind .current fun _ => .bind .advance fun _ => .bind (h.expression _) fun _ =>
    .pure _
  | .call, _ => .bind .current fun _ => .bind (.parenthesized (argument h)) fun _ => .pure _

theorem climb (threshold : Precedence) :
    ∀ rounds left, (climb grammar parts threshold rounds left).Forward able fun _ => True
  | 0, _ => .giveUp True.intro
  | rounds + 1, left => by
    refine .bind .upcoming fun token => .ite ?_ (.pure _)
    split
    · exact .pure _
    · exact .bind .advance fun _ => .bind (continuation h _ _) fun _ => climb threshold rounds _

theorem expressionWith (threshold : Precedence) :
    (expressionWith grammar parts threshold).Forward able fun _ => True := by
  refine .bind .current fun token => ?_
  split
  · exact .fail _ _
  · exact .bind (opening h _) fun _ => .bind .remaining fun _ => climb h threshold _ _

theorem statementsWith (closing : List TokenKind) :
    ∀ rounds, (statementsWith parts closing rounds).Forward able fun _ => True
  | 0 => .giveUp True.intro
  | rounds + 1 => by
    refine .bind .current fun token => .ite (.pure _) <| .bind (.attempt (.statement h)) ?_
    rintro (_ | first)
    · exact .bind (.skipTo _) fun _ => .bind .current fun _ => .ite (.pure _) <|
        .bind .advance fun _ => statementsWith closing rounds
    · exact .bind .advance fun _ => .bind (statementsWith closing rounds) fun _ => .pure _

/-- What is done behind a statement that is dropped. -/
theorem skipping (closing : List TokenKind) (rounds : Nat) :
    Parser.Forward able (fun _ => True) (do
      Parser.skipTo closing
      if (← Parser.current).kind ∈ closing then return []
      else
        Parser.advance
        Parser.statementsWith parts closing rounds) :=
  .bind (.skipTo _) fun _ => .bind .current fun _ => .ite (.pure _) <|
    .bind .advance fun _ => .statementsWith h closing rounds

theorem blockWith : (blockWith parts).Forward able fun _ => True :=
  .bind .current fun _ => .bind .advance fun _ => .bind .remaining fun _ =>
    .bind (statementsWith h _ _) fun _ => .pure _

end Forward

/-- Parsers of whatever depth go forward. -/
theorem forward_upTo (grammar : Grammar) :
    ∀ depth, (Parts.upTo grammar depth).Forward .any fun _ => True
  | 0 => ⟨fun _ => .giveUp True.intro, .giveUp True.intro⟩
  | depth + 1 =>
    ⟨fun threshold => .expressionWith (forward_upTo grammar depth) threshold,
      .blockWith (forward_upTo grammar depth)⟩

end Parser

end MonkeyLang
