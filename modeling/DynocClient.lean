import DynocClient.Command.Updates
import DynocClient.Hash.Bursts
import DynocClient.Hash.Jenkins
import DynocClient.Hash.Murmur
import DynocClient.Hash.Platforms
import DynocClient.Hash.Separation
import DynocClient.Hash.Sines
import DynocClient.Select.Scan
import DynocClient.Select.Shares
import DynocClient.Setup.Accounting
import DynocClient.System.Cluster
import DynocClient.System.Destroy
import DynocClient.System.Discipline
import DynocClient.System.Progress
import DynocClient.System.Recovery
import DynocClient.System.Replies
import DynocClient.System.Unfilled
import DynocClient.Token.Accesses
import DynocClient.Token.Groups
