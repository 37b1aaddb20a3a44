import Cero.Library.Effect
import Cero.Source
import Cero.Token
import Cero.Ast
import Cero.Report
import Cero.Parser
import Cero.ParserExact
import Cero.ParserProgress
import Cero.ParserTotal
import Cero.DefinitionRules
import Cero.DefinitionExact
import Cero.DefinitionTotal
import Cero.ParserReports
import Cero.ParserPrecedence
import Cero.ParserPositions
import Cero.Flatten
import Cero.ParserFlatten
import Cero.ParserRoundTrip
import Cero.DefinitionRecovery
import Cero.StatementRecovery
import Cero.Unicode
import Cero.Keywords
import Cero.Lexer
import Cero.LexerRules
import Cero.Library.Tiling
import Cero.LexerScanners
import Cero.LexerTiling
import Cero.FrontEnd
import Cero.LexerRuns
import Cero.Utf8Chars
import Cero.LexerRoundTrip
import Cero.ParserBlame
import Cero.ParserLocality
import Cero.Library.Regions
import Cero.Library.Runs
import Cero.MemoryArena
import Cero.ArenaGeometry
import Cero.ArenaOwnership
import Cero.ArenaArray
import Cero.ArenaContents
import Cero.SymbolTable
import Cero.Utf8Validation
import Cero.QuotedLiterals
import Cero.WordExtent
import Cero.ReturnOperands
import Cero.Locations
import Cero.KeywordLookup
import Cero.NumberExtent
import Cero.TokenIsolation
import Cero.Library.Simulation
import Cero.ParserLayout
import Cero.LexerPlacement
import Cero.LexerComments
import Cero.LexerExtension
import Cero.Concatenation
import Cero.Printer
import Cero.SourceLayout
import Cero.Library.Ownership
import Cero.FileView
import Cero.FileViewSystems
import Cero.FileViewOwnership
import Cero.Build
import Cero.Library.Course
import Cero.LexerReports
import Cero.DiagnosticOrder
import Cero.ParserRepair
import Cero.TreeTexts
import Cero.TypeChecker
import Cero.Library.Synchronization
import Cero.CharacterBoundaries
import Cero.TokenCharacters
import Cero.QuotedTexts
import Cero.Library.Realization
