import PermanuAgent.AdmissionCommits
import PermanuAgent.AdmissionDestinations
import PermanuAgent.AdmissionDryRun
import PermanuAgent.AdmissionElevation
import PermanuAgent.AdmissionInputs
import PermanuAgent.AdmissionRates
import PermanuAgent.AdmissionReplay
import PermanuAgent.AdmissionSealed
import PermanuAgent.AdmissionSettlement
import PermanuAgent.AlertFiring
import PermanuAgent.AlertRecovery
import PermanuAgent.BackupChecks
import PermanuAgent.BackupDownload
import PermanuAgent.CiDeadlines
import PermanuAgent.CiSteps
import PermanuAgent.ComposeContent
import PermanuAgent.ContainerTails
import PermanuAgent.CronBindings
import PermanuAgent.CronQueues
import PermanuAgent.DiagnosticLimits
import PermanuAgent.HealthChecks
import PermanuAgent.HostedCleanup
import PermanuAgent.HostedCommands
import PermanuAgent.HttpProbe
import PermanuAgent.KeyPattern
import PermanuAgent.LogFollow
import PermanuAgent.LogIngest
import PermanuAgent.LogRotation
import PermanuAgent.OperationWatch
import PermanuAgent.PemStream
import PermanuAgent.SecretFiles
import PermanuAgent.ShellPump
import PermanuAgent.ShellSessions
import PermanuAgent.SpanOrder
import PermanuAgent.SpoolBudget
import PermanuAgent.StreamedOutput
import PermanuAgent.TelemetryFrames
import PermanuAgent.TrustChanges
