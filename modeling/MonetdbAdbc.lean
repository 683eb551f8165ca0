import MonetdbAdbc.Codec.Reencode
import MonetdbAdbc.AppendAlignment
import MonetdbAdbc.Read.OwnedDecode
import MonetdbAdbc.Read.RequestTrace
import MonetdbAdbc.Driver.CacheRuns
import MonetdbAdbc.Driver.PlanHandles
import MonetdbAdbc.Driver.ParameterReader
import MonetdbAdbc.Driver.ConfiguredRows
import MonetdbAdbc.Driver.IngestPipeline
import MonetdbAdbc.Driver.Like
import MonetdbAdbc.Driver.IngestMemory
import MonetdbAdbc.Read.BatchRounding
import MonetdbAdbc.Driver.CacheKeys
import MonetdbAdbc.Sql.LiteralValue
import MonetdbAdbc.Driver.PoisonRuns
