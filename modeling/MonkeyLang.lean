import MonkeyLang.Text.Quoted
import MonkeyLang.Text.Blank
import MonkeyLang.Text.Decimal
import MonkeyLang.Text.Newline
import MonkeyLang.Token
import MonkeyLang.Token.Scan
import MonkeyLang.Token.Precedence
import MonkeyLang.Node
import MonkeyLang.Node.Render
import MonkeyLang.Node.Dump
import MonkeyLang.Diagnostic
import MonkeyLang.Parser.Basic
import MonkeyLang.Parser.Grammar
import MonkeyLang.Parser.Expression
import MonkeyLang.Parser.Statement
import MonkeyLang.Parser.Program
import MonkeyLang.Word
import MonkeyLang.Value
import MonkeyLang.Heap
import MonkeyLang.Operator
import MonkeyLang.Evaluation
import MonkeyLang.Run
import MonkeyLang.Session
import MonkeyLang.CommandLine.Arguments
import MonkeyLang.CommandLine.Folder
import MonkeyLang.CommandLine.Command
import MonkeyLang.Main
import MonkeyLang.Proofs.Parsing.Forward
import MonkeyLang.Proofs.Parsing.Prompt
import MonkeyLang.Proofs.Parsing.Termination
import MonkeyLang.Proofs.Grammar.Derivation
import MonkeyLang.Proofs.Grammar.Beginning
import MonkeyLang.Proofs.Grammar.Greedy
import MonkeyLang.Proofs.Grammar.Soundness
import MonkeyLang.Proofs.Grammar.Completeness
import MonkeyLang.Proofs.Grammar.Longest
import MonkeyLang.Proofs.Grammar.Recognition
import MonkeyLang.Proofs.Evaluation.Agreement
import MonkeyLang.Proofs.Evaluation.Leaving
import MonkeyLang.Proofs.Evaluation.Confinement
import MonkeyLang.Proofs.Evaluation.Record
import MonkeyLang.Proofs.Evaluation.Signals
import MonkeyLang.Proofs.Evaluation.Unmentioned
import MonkeyLang.Proofs.Scanning.Concatenation
import MonkeyLang.Proofs.Parsing.Seam
import MonkeyLang.Proofs.Parsing.Twins
import MonkeyLang.Proofs.Grammar.Promptness
import MonkeyLang.Proofs.Grammar.FirstFault
import MonkeyLang.Proofs.Parsing.Concatenation
import MonkeyLang.Proofs.Parsing.Recovery
import MonkeyLang.Proofs.Scanning.Pieces
import MonkeyLang.Proofs.Rendering.Derivation
import MonkeyLang.Proofs.Rendering.RoundTrip
import MonkeyLang.Proofs.Evaluation.Formation
import MonkeyLang.Proofs.Rendering.Meaning
import MonkeyLang.Proofs.Session.Script
import MonkeyLang.Proofs.Parsing.Journal
import MonkeyLang.Proofs.Evaluation.Depth
import MonkeyLang.Proofs.Scanning.Lossless
import MonkeyLang.Proofs.Session.Overflow
import MonkeyLang.Proofs.Parsing.BlockEnd
import MonkeyLang.Proofs.Scanning.LongestMatch
import MonkeyLang.Proofs.Evaluation.Arithmetic
import MonkeyLang.Proofs.Scanning.Places
import MonkeyLang.Proofs.Parsing.Provenance
import MonkeyLang.Proofs.Session.Endurance
import MonkeyLang.Proofs.Parsing.Watch
import MonkeyLang.Proofs.Parsing.Progress
import MonkeyLang.Proofs.Evaluation.Lookup
import MonkeyLang.Proofs.Parsing.SourceOrder
import MonkeyLang.Proofs.Scanning.Spaced
import MonkeyLang.Proofs.Parsing.Relocation
import MonkeyLang.Proofs.Evaluation.Division
import MonkeyLang.Proofs.Session.Omission
import MonkeyLang.Proofs.Scanning.LineEnds
import MonkeyLang.Proofs.CommandLine.LineEnds
import MonkeyLang.Proofs.Evaluation.Origin
import MonkeyLang.Proofs.Rendering.ReadBack
