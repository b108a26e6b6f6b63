import Tptp.Text.Location
import Tptp.Document
import Tptp.Formula.Reassociation
import Tptp.Szs.Comment
import Tptp.Read
import Tptp.Proofs.Outcome
import Tptp.Proofs.WellFormed
import Tptp.Proofs.Yields.Basic
import Tptp.Proofs.Yields.Token
import Tptp.Proofs.Character
import Tptp.Proofs.Reads
import Tptp.Proofs.Lexical.Layout
import Tptp.Proofs.Lexical.Quoted
import Tptp.Proofs.Lexical.Word
import Tptp.Proofs.Lexical.Number
import Tptp.Proofs.Syntax.Token
import Tptp.Proofs.Syntax.Lexeme
import Tptp.Proofs.Syntax.Derives
import Tptp.Proofs.Syntax.Formula
import Tptp.Proofs.Composed.Grammar
import Tptp.Proofs.Locality.Primitive
import Tptp.Proofs.WholeText
import Tptp.Proofs.Yields.Document
import Tptp.Proofs.Yields.Language
import Tptp.Proofs.Syntax.Unsorted
import Tptp.Proofs.Syntax.Clause
import Tptp.Proofs.Locality.Entry
import Tptp.Proofs.Locality.Document
import Tptp.Proofs.Agreement.Modal
import Tptp.Proofs.Agreement.Conversion
import Tptp.Proofs.Writing.Source
import Tptp.Proofs.Writing.Declaration
import Tptp.Proofs.EntryPoint
import Tptp.Proofs.Announcement
import Tptp.Proofs.Respacing
import Tptp.Proofs.Bookkeeping.History
import Tptp.Proofs.Regrouping.Canonical
import Tptp.Proofs.Regrouping.Replacement
import Tptp.Proofs.Progress.Grammar
import Tptp.Proofs.LeftToRight
import Tptp.Proofs.Extent.Layout
import Tptp.Proofs.Extent.Quoted
import Tptp.Proofs.Numbers.Reading
import Tptp.Proofs.Extent.Member
import Tptp.Proofs.CommentLine.Lexing
import Tptp.Proofs.CommentLine.Announced
import Tptp.Proofs.Syntax.Denotation
import Tptp.Proofs.CommentLine.Leading
import Tptp.Proofs.Syntax.SignatureReading
import Tptp.Proofs.Located.Error
import Tptp.Proofs.Boundary.Tokenwise
import Tptp.Proofs.Extent.Parens
