import SystemRdlToolkit.Csv.Lines
import SystemRdlToolkit.Csv.Levenshtein
import SystemRdlToolkit.Csv.Parser
import SystemRdlToolkit.Csv.Fields
import SystemRdlToolkit.Csv.Columns
import SystemRdlToolkit.Rdl.Generator
import SystemRdlToolkit.Json.Value
import SystemRdlToolkit.Json.Filename
import SystemRdlToolkit.Json.Reader
import SystemRdlToolkit.Json.Builder
import SystemRdlToolkit.Json.Document
import SystemRdlToolkit.Json.Rejected
import SystemRdlToolkit.Json.AstJson
import SystemRdlToolkit.Json.ModelJson
import SystemRdlToolkit.Json.ModelText
import SystemRdlToolkit.Cli.OutputFile
