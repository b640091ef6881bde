import VarSubst.Environment
import VarSubst.Options.Json
import VarSubst.Pass
import VarSubst.Record.Json
import VarSubst.Session
import VarSubst.Proofs.Outcome
import VarSubst.Proofs.Evaluation
import VarSubst.Proofs.Sibling
import VarSubst.Proofs.Descent
import VarSubst.Proofs.NestingBound
import VarSubst.Proofs.Deepening
import VarSubst.Proofs.Truncation
import VarSubst.Proofs.Grammar
import VarSubst.Proofs.Scan
import VarSubst.Proofs.Separator
import VarSubst.Proofs.Respelling
import VarSubst.Proofs.ByteOrder
import VarSubst.Proofs.Bytewise.Access
import VarSubst.Proofs.Bytewise.Scan
import VarSubst.Proofs.Bytewise.Expansion
import VarSubst.Proofs.Strict
import VarSubst.Proofs.Unresolved
import VarSubst.Proofs.Coherence
import VarSubst.Proofs.Locality
import VarSubst.Proofs.FreshKey
import VarSubst.Proofs.Independence
import VarSubst.Proofs.FixedPoint
import VarSubst.Proofs.Literal
import VarSubst.Proofs.Preset
import VarSubst.Proofs.Json.Grammar
import VarSubst.Proofs.Json.Lexeme
import VarSubst.Proofs.Json.Fits
import VarSubst.Proofs.Json.LastWins
import VarSubst.Proofs.Json.Reading
import VarSubst.Proofs.Json.Skipping
import VarSubst.Proofs.Json.RoundTrip
import VarSubst.Proofs.RecordShape
import VarSubst.Proofs.RecordText
import VarSubst.Proofs.OptionsShape
