import Wreath.ByteStringProofs
import Wreath.HttpHeadProofs
import Wreath.ChunkedCodingProofs
import Wreath.Http1InputProofs
import Wreath.StepSystemProofs
import Wreath.Http1ResponseProofs
import Wreath.Http1ConnProofs
import Wreath.Http1BoundaryProofs
import Wreath.Http1TranscriptProofs
import Wreath.Http1EncoderProofs
import Wreath.Http1CallsProofs
import Wreath.Http1FramingProofs
import Wreath.Http1DriveProofs
import Wreath.Http1SplitProofs
import Wreath.ProbeTableProofs
import Wreath.RouteAccessProofs
import Wreath.RouteTableProofs
import Wreath.RouteMatchProofs
import Wreath.RouteGroupProofs
import Wreath.RouteSelectProofs
import Wreath.RouteScanProofs
import Wreath.RouteTicketProofs
import Wreath.RouteExposureProofs
import Wreath.PgSlabProofs
import Wreath.PgMessageProofs
import Wreath.TableProofs
import Wreath.PgDriverProofs
import Wreath.PgQueueProofs
import Wreath.PgPipelineProofs
import Wreath.GateProofs
import Wreath.PgTransactionProofs
import Wreath.PgStatementProofs
import Wreath.PgPoolProofs
import Wreath.SearchProofs
import Wreath.CedarValueProofs
import Wreath.CedarEvalProofs
import Wreath.CedarDecisionProofs
import Wreath.CedarPreparedProofs
import Wreath.CedarOperatorProofs
import Wreath.MigrationPlanProofs
import Wreath.MigrationSqlProofs
import Wreath.MigrationOrderProofs
import Wreath.SqlLexProofs
import Wreath.MigrationQuoteProofs
import Wreath.CapabilityMapProofs
import Wreath.DpopProofs
import Wreath.SignatureProofs
import Wreath.ResponseCacheProofs
import Wreath.CacheIsolationProofs
import Wreath.CacheInvalidationProofs
import Wreath.SessionProofs
import Wreath.IdempotencyProofs
import Wreath.UndoLogProofs
import Wreath.WorkflowProofs
import Wreath.AdvisoryLockProofs
import Wreath.ResumableProofs
import Wreath.MultipartProofs
import Wreath.MultipartStreamProofs
import Wreath.ClientResponseProofs
import Wreath.ClientPoolProofs
import Wreath.ProtobufProofs
import Wreath.ProtobufWireProofs
import Wreath.Http3BodyProofs
import Wreath.LogReadProofs
import Wreath.LogBufferProofs
import Wreath.JobQueueProofs
import Wreath.SingletonProofs
import Wreath.CacheFlightProofs
