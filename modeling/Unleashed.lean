import Unleashed.Zfs.SpaceMap.Vdev
import Unleashed.Zfs.SpaceMap.Estimate
import Unleashed.Zfs.Deadlist.Returns
import Unleashed.Zfs.DslDir.Run
import Unleashed.Zfs.Txg.Pipeline
import Unleashed.Zfs.Metaslab.Weight
import Unleashed.Zfs.Metaslab.Condense
import Unleashed.Zfs.Metaslab.Complete
import Unleashed.Zfs.Raidz.Sectors
import Unleashed.Zfs.Raidz.Exhaustive
import Unleashed.Zfs.VdevIndirect.Remap
import Unleashed.Zfs.VdevIndirect.Condense
import Unleashed.Zfs.SpaceReftree
import Unleashed.Kernel.Cyclic.Run
import Unleashed.Nvpair.Run
import Unleashed.Kernel.Turnstile.Walk
import Unleashed.Kernel.Kmem.Run
import Unleashed.Kernel.Flock
import Unleashed.Zfs.Compress.RoundTrip
import Unleashed.Zfs.Compress.Malformed
import Unleashed.Zfs.Compress.Dedup
import Unleashed.Avl.Destroy
import Unleashed.Kernel.Memlist.Run
import Unleashed.Kernel.As
import Unleashed.Kernel.Timers
import Unleashed.Kernel.Tod
import Unleashed.Zfs.Zap.Holds
import Unleashed.Zfs.Zil.Parse
import Unleashed.Zfs.Fletcher
